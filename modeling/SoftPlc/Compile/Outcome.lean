/-!
# How a compilation ends

The compiler announces its verdict in a line of its output, with one of two
phrases. A stream may also end without a verdict, by closing or by a failure,
and a compiler may announce success and still exit with a failing code. The
report of a compilation keeps the end of the stream and the exit code apart
and draws the conclusion from both.

A line that contains both phrases counts as a failure: the error phrase is
looked for first.

## Main definitions

* `Verdict.detect`: The verdict in a line of output.
* `StreamEnd`: How the output ended.
* `Report`: How a compilation ended.
* `Report.succeeded`: Success was announced and not contradicted.
-/

namespace SoftPlc

/-- What the compiler announced. -/
inductive Verdict where
  | success
  | failure
  deriving DecidableEq, Repr, Inhabited

namespace Verdict

/-- The phrase of a failed build. -/
def failurePhrase : String := "Compilation finished with errors!"

/-- The phrase of a successful build. -/
def successPhrase : String := "Compilation finished successfully!"

/-- The phrase occurs somewhere in the text. -/
def occurs (phrase : List Char) : List Char → Bool
  | [] => phrase.isEmpty
  | c :: rest => phrase.isPrefixOf (c :: rest) || occurs phrase rest

/-- The verdict in a line of output. -/
def detect (line : List Char) : Option Verdict :=
  if occurs failurePhrase.toList line then some failure
  else if occurs successPhrase.toList line then some success
  else none

/-- The stable label of a verdict. -/
def label : Verdict → String
  | success => "success"
  | failure => "errors"

end Verdict

/-- How a compiler's output ended. -/
inductive StreamEnd where
  /-- With a verdict. -/
  | finished (verdict : Verdict)
  /-- By closing before any verdict. -/
  | unexpectedEof
  /-- By a failure to read it. -/
  | readError (reason : String)
  deriving DecidableEq, Repr, Inhabited

/-- How a compilation ended. -/
structure Report where
  streamEnd : StreamEnd
  /-- The compiler's exit code, once there is one. -/
  exitCode : Option Int
  deriving DecidableEq, Repr, Inhabited

/-- Success was announced, and the compiler did not exit with a failing code. -/
def Report.succeeded (r : Report) : Bool :=
  r.streamEnd == .finished .success && (r.exitCode == none || r.exitCode == some 0)

end SoftPlc
