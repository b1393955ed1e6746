import SoftPlc.Control.Error
import SoftPlc.Failure
import SoftPlc.Text.Blank

/-!
# Replies

How the client turns what happens on a connection into a reply or an error.
A connection is described by what each attempt on it came to: dialling,
writing the request, and then one read after the other. `Exchange.conclude`
is a function of those outcomes, so a statement about every engine is a
statement about every list of outcomes.

Reading stops at the first of four things: the limit is reached, a read ends
in a newline, the engine closes, or a read fails or runs out of time. The
last is only an error when nothing at all was received; a reply that broke
off is returned as far as it came. A read never returns more than there is
room for, which is why a chunk is cut to the room that is left before it is
looked at.

## Main definitions

* `ReadOutcome`: What one read came to.
* `collect`: The bytes received, and what stopped the reading.
* `Exchange`: What happened on one connection.
* `Exchange.conclude`: The reply or error of an exchange.
* `seconds?`: The number a reply to the uptime query holds.
-/

namespace SoftPlc

/-- What one read on a connection came to. -/
inductive ReadOutcome where
  /-- Bytes arrived. A read that brings none is the engine's closing. -/
  | data (bytes : List UInt8)
  /-- The engine closed the connection. -/
  | closed
  /-- The system reported a failure. -/
  | failed (reason : Failure)
  /-- Nothing came within the time limit. -/
  | timedOut
  deriving DecidableEq, Repr, Inhabited

/-- What an attempt to connect or to write came to. -/
inductive Attempt where
  | completed
  | failed (reason : Failure)
  | timedOut
  deriving DecidableEq, Repr, Inhabited

/-- What a whole connection came to: dialling, writing, and the reads. -/
structure Exchange where
  dial : Attempt
  write : Attempt
  reads : List ReadOutcome
  deriving DecidableEq, Repr, Inhabited

/-- Where and how patiently to talk to the engine. -/
structure Client where
  address : Address
  connectTimeout : Duration
  ioTimeout : Duration
  deriving DecidableEq, Repr, Inhabited

namespace Client

/-- The newline that ends a request and may end a reply. -/
def newline : UInt8 := 10

/-- Where reading stands: the bytes received so far, newest first. -/
abbrev Received := List UInt8

/-- Why reading stopped. -/
inductive Stop where
  /-- The reply is complete, or will not be longer. -/
  | complete
  | failed (reason : Failure)
  | timedOut
  deriving DecidableEq, Repr

/-- Reads until something stops it. `room` is how many bytes may still be
    received; what happened after the last outcome is taken for silence. -/
def collect (room : Nat) (received : Received) : List ReadOutcome → Received × Stop
  | [] => if room = 0 then (received, .complete) else (received, .timedOut)
  | outcome :: rest =>
    if room = 0 then (received, .complete)
    else match outcome with
      | .closed => (received, .complete)
      | .failed reason => (received, .failed reason)
      | .timedOut => (received, .timedOut)
      | .data bytes =>
        -- A read never returns more than there is room for.
        let taken := bytes.take room
        match taken.reverse with
        -- A read that brings nothing is the engine's closing.
        | [] => (received, .complete)
        | last :: before =>
          let received := last :: (before ++ received)
          if last = newline then (received, .complete)
          else collect (room - taken.length) received rest

/-- The reply in what the reads came to, given a limit of at least one byte. -/
def readReply (client : Client) (limit : Nat) (reads : List ReadOutcome) :
    Except ControlError String :=
  let (received, stop) := collect (max limit 1) [] reads
  let reply := String.ofList (Text.Utf8.lossy received.reverse)
  if received.isEmpty then
    match stop with
    | .complete => .ok reply
    | .failed reason => .error (.unreachable client.address reason.text)
    | .timedOut => .error (.timedOut client.address client.ioTimeout)
  else .ok reply

/-- The reply or error of a whole exchange. -/
def conclude (client : Client) (limit : Nat) (exchange : Exchange) :
    Except ControlError String :=
  match exchange.dial with
  | .failed reason => .error (.unreachable client.address reason.text)
  | .timedOut => .error (.timedOut client.address client.connectTimeout)
  | .completed =>
    match exchange.write with
    | .failed reason => .error (.unreachable client.address reason.text)
    | .timedOut => .error (.timedOut client.address client.ioTimeout)
    | .completed => client.readReply limit exchange.reads

/-- The bytes of a request: its text and a newline. -/
def request (text : String) : List UInt8 :=
  Text.Utf8.encode text ++ [newline]

end Client

/-- The greatest number of seconds the engine can report, plus one. -/
def secondsBound : Nat := UInt64.size

/-- The number in the reply to the uptime query: decimal digits, perhaps with
    a plus sign before them, perhaps with blanks around them, below the bound. -/
def seconds? (reply : String) : Option Nat :=
  let body := Text.trim reply.toList
  let digits := if body.head? = some '+' then body.tail else body
  if digits.isEmpty || !digits.all Char.isDigit then none
  else
    let n := Nat.ofDigitChars 10 digits 0
    if n < secondsBound then some n else none

/-- The uptime in a reply, or the complaint about it. -/
def readSeconds (reply : String) : Except ControlError Nat :=
  match seconds? reply with
  | some n => .ok n
  | none => .error (.malformedReply Command.execTime.wire reply)

end SoftPlc
