/-!
# Failures reported by the operating system

Opening a connection, reading a pipe or launching a program can fail for
reasons that only the operating system knows. Such a failure is either a
numbered system error, one of a few kinds that are recognised without a
number, or a text that some other layer supplied. Nothing in the supervisor
acts on the difference; it is kept so that the text shown to an operator can
be computed from the cause.

## Main definitions

* `Failure`: Why the operating system refused.
* `Failure.text`: The text of a failure.
-/

namespace SoftPlc

/-- The kinds of failure that are recognised without an error number. -/
inductive FailureKind where
  | notFound
  | permissionDenied
  | brokenPipe
  | unexpectedEof
  | invalidInput
  | timedOut
  | interrupted
  deriving DecidableEq, Repr, Inhabited

/-- Why the operating system refused. -/
inductive Failure where
  | errno (number : Nat)
  | kind (k : FailureKind)
  | described (text : String)
  deriving DecidableEq, Repr, Inhabited

namespace Failure

/-- The system's sentence for an error number. -/
def sentence : Nat → Option String
  | 1 => some "Operation not permitted"
  | 2 => some "No such file or directory"
  | 4 => some "Interrupted system call"
  | 5 => some "Input/output error"
  | 7 => some "Argument list too long"
  | 8 => some "Exec format error"
  | 9 => some "Bad file descriptor"
  | 11 => some "Resource temporarily unavailable"
  | 12 => some "Cannot allocate memory"
  | 13 => some "Permission denied"
  | 16 => some "Device or resource busy"
  | 20 => some "Not a directory"
  | 21 => some "Is a directory"
  | 22 => some "Invalid argument"
  | 23 => some "Too many open files in system"
  | 24 => some "Too many open files"
  | 26 => some "Text file busy"
  | 28 => some "No space left on device"
  | 32 => some "Broken pipe"
  | 36 => some "File name too long"
  | 40 => some "Too many levels of symbolic links"
  | 101 => some "Network is unreachable"
  | 103 => some "Software caused connection abort"
  | 104 => some "Connection reset by peer"
  | 110 => some "Connection timed out"
  | 111 => some "Connection refused"
  | 113 => some "No route to host"
  | _ => none

/-- The text of a failure. -/
def text : Failure → String
  | errno n => (sentence n).getD s!"Unknown error {n}" ++ s!" (os error {n})"
  | kind .notFound => "entity not found"
  | kind .permissionDenied => "permission denied"
  | kind .brokenPipe => "broken pipe"
  | kind .unexpectedEof => "unexpected end of file"
  | kind .invalidInput => "invalid input parameter"
  | kind .timedOut => "timed out"
  | kind .interrupted => "operation interrupted"
  | described s => s

/-- No such file or directory. -/
def noSuchFile : Failure := errno 2

/-- The file may not be executed. -/
def notPermitted : Failure := errno 13

/-- A path leads through something that is no directory. -/
def notADirectory : Failure := errno 20

/-- The host has no route to the address. -/
def noRoute : Failure := errno 101

/-- The peer closed the connection by force. -/
def connectionReset : Failure := errno 104

/-- Nothing listens at the address. -/
def connectionRefused : Failure := errno 111

/-- A program, argument or path contains a NUL byte. -/
def nulByte : Failure := described "nul byte found in provided data"

/-- The failure is a read that was merely interrupted, and is tried again. -/
def isInterrupted (f : Failure) : Bool :=
  f == kind .interrupted || f == errno 4

end Failure

end SoftPlc
