import SoftPlc.Compile.Outcome
import SoftPlc.Failure
import SoftPlc.Journal
import SoftPlc.Text.Utf8

/-!
# The compiler's log stream

Turning the bytes a compiler writes into lines that can be polled, while every
line also goes to the event bus.

A reader works in the background and shares three things with whoever polls:
the queue of lines, the end of the stream, and a flag that the stream has
ended. It writes them one after the other, and a consumer may look between any
two of those writes. So the reader is a machine whose steps are the single
writes. `LogStream.take` gives it one byte, or tells it that the input failed
or ended, and is only meaningful while it waits for input; `LogStream.act` is
its next write in every other phase.

A line goes out in three writes, to the bus, into the queue, and a signal to
those who wait. The end goes out in four: to the bus, the end itself, the
flag, the signal. A line is queued before the flag is raised, so a consumer
that sees the flag and then takes what is queued misses nothing.

After a verdict the queue is final, but the reader goes on consuming, so that
the compiler can finish writing. That tail reaches the bus only, and how it
ends is of no interest. Reading stops for good when the input ends or fails,
and at a line that is not UTF-8.

Lines are handed out in stream order, each once. The queue is therefore kept
as the history of queued lines with a count of how many are taken.

## Main definitions

* `LogStream`: The reader and what it shares.
* `LogStream.take`: The reader's step on input.
* `LogStream.act`: The reader's next write.
* `LogStream.consume`: A step on input and the writes it leads to.
* `LogStream.next?`: Takes a line off the queue.
* `LogStream.drain`: Takes every line off the queue.
-/

namespace SoftPlc

/-- A line of output and its position in the stream. -/
structure LogLine where
  position : Nat
  text : String
  deriving DecidableEq, Repr, Inhabited

/-- What reaches the reader. -/
inductive StreamInput where
  | byte (b : UInt8)
  /-- A read was interrupted, and is simply made again. -/
  | interrupted
  | failed (reason : Failure)
  | ended
  deriving DecidableEq, Repr, Inhabited

/-- What the reader does next. -/
inductive ReaderPhase where
  /-- Wait for input, no verdict having been read. -/
  | reading
  /-- Queue a line that is on the bus already. -/
  | queueing (line : String)
  /-- Signal a queued line; it may hold a verdict. -/
  | signalling (verdict : Option Verdict)
  /-- Publish a verdict. -/
  | announcing (verdict : Verdict)
  /-- Store the end of the stream. -/
  | storing (streamEnd : StreamEnd)
  /-- Raise the flag. -/
  | raising (streamEnd : StreamEnd)
  /-- Signal the end. -/
  | closing (streamEnd : StreamEnd)
  /-- Wait for input after a verdict. -/
  | tail
  /-- Nothing: the input is no longer read. -/
  | stopped
  deriving DecidableEq, Repr, Inhabited

/-- A consumer that waits for a line, and whether it has been signalled. -/
structure Waiter where
  id : Nat
  signalled : Bool
  deriving DecidableEq, Repr, Inhabited

/-- The reader of a stream and what it shares with consumers. -/
structure LogStream where
  /-- The bytes of the line being read, newest first. -/
  unfinished : List UInt8 := []
  /-- The input has ended, though the reader may not have dealt with it yet. -/
  inputEnded : Bool := false
  phase : ReaderPhase := .reading
  /-- Every line ever queued. -/
  queued : Array String := #[]
  /-- How many of them have been taken. -/
  taken : Nat := 0
  streamEnd : Option StreamEnd := none
  /-- The flag that the stream has ended. -/
  raised : Bool := false
  /-- The consumers that wait, in the order in which they began to. -/
  waiters : List Waiter := []
  deriving DecidableEq, Repr, Inhabited

namespace LogStream

/-- The text of the error for a line that is not UTF-8. -/
def notTextReason : String := "stream did not contain valid UTF-8"

/-- The text of the event for a stream that closed without a verdict. -/
def closedReason : String := "unexpected end of stream"

/-- The byte that ends a line. -/
def newline : UInt8 := 10

/-- The event for a line of output. -/
def lineNotice (line : String) : Notice :=
  { kind := .compileOutput, line := some line }

/-- The event for a stream that ended without a verdict. -/
def endedNotice (reason : String) : Notice :=
  { kind := .compileStreamEnded, reason := some reason }

/-- The event for a verdict. -/
def verdictNotice (verdict : Verdict) : Notice :=
  { kind := .compileFinished, reason := some verdict.label }

/-- The reader waits for input. -/
def awaitsInput (s : LogStream) : Bool :=
  match s.phase with
  | .reading => !s.inputEnded
  | .tail => !s.inputEnded
  | _ => false

/-- The input is no longer read. -/
def isStopped (s : LogStream) : Bool :=
  s.phase == .stopped

/-- The reader gives up on the input, before a verdict or after one. -/
def giveUp (s : LogStream) (reason : String) : LogStream × Option Notice :=
  match s.phase with
  | .reading =>
    ({ s with unfinished := [], phase := .storing (.readError reason) },
      some (endedNotice reason))
  | _ => ({ s with unfinished := [], phase := .stopped }, none)

/-- The reader has a whole line. It is published at once, unless it is no
    text. -/
def finishLine (s : LogStream) (bytes : List UInt8) : LogStream × Option Notice :=
  match Text.Utf8.decode? bytes with
  | none => s.giveUp notTextReason
  | some line =>
    let line := String.ofList line
    let phase := match s.phase with
      | .reading => .queueing line
      | phase => phase
    ({ s with unfinished := [], phase }, some (lineNotice line))

/-- The reader's step on input, while it waits for some. -/
def take (s : LogStream) (input : StreamInput) : LogStream × Option Notice :=
  match input with
  | .byte b =>
    let unfinished := b :: s.unfinished
    if b = newline then s.finishLine unfinished.reverse else ({ s with unfinished }, none)
  | .interrupted => (s, none)
  | .failed reason => if reason.isInterrupted then (s, none) else s.giveUp reason.text
  | .ended =>
    let s := { s with inputEnded := true }
    -- What stands behind the last newline is a line as well.
    if s.unfinished.isEmpty then (s, none) else s.finishLine s.unfinished.reverse

/-- Signals everyone who waits. -/
def signal (s : LogStream) : LogStream :=
  { s with waiters := s.waiters.map fun w => { w with signalled := true } }

/-- The reader's next write, while it does not wait for input. -/
def act (s : LogStream) : LogStream × Option Notice :=
  match s.phase with
  | .reading =>
    if s.inputEnded then
      ({ s with phase := .storing .unexpectedEof }, some (endedNotice closedReason))
    else (s, none)
  | .queueing line =>
    ({ s with
        queued := s.queued.push line
        phase := .signalling (Verdict.detect line.toList) }, none)
  | .signalling verdict =>
    let phase := match verdict with
      | some v => .announcing v
      | none => .reading
    ({ s.signal with phase }, none)
  | .announcing verdict =>
    ({ s with phase := .storing (.finished verdict) }, some (verdictNotice verdict))
  | .storing streamEnd =>
    ({ s with streamEnd := some streamEnd, phase := .raising streamEnd }, none)
  | .raising streamEnd => ({ s with raised := true, phase := .closing streamEnd }, none)
  | .closing streamEnd =>
    -- The compiler may go on writing after a verdict, and must find a reader.
    let phase := match streamEnd with
      | .finished _ => .tail
      | _ => .stopped
    ({ s.signal with phase }, none)
  | .tail => if s.inputEnded then ({ s with phase := .stopped }, none) else (s, none)
  | .stopped => (s, none)

/-- A stream together with the journal its events go to. -/
abbrev WithJournal := LogStream × Journal

/-- Publishes what a step of the reader calls for. -/
def publishing (j : Journal) (step : LogStream × Option Notice) : WithJournal :=
  match step with
  | (s, some n) => (s, j.publish n)
  | (s, none) => (s, j)

/-- The reader's writes until it waits for input again or has stopped, at
    most as many as `acts`. -/
def rest : Nat → WithJournal → WithJournal
  | 0, sj => sj
  | acts + 1, (s, j) =>
    if s.awaitsInput || s.isStopped then (s, j) else rest acts (publishing j s.act)

/-- How many writes there can be between two inputs. -/
def restBound : Nat := 8

/-- The reader takes one input and makes the writes that follow from it. Once
    it has stopped it takes nothing. -/
def consume (sj : WithJournal) (input : StreamInput) : WithJournal :=
  if sj.1.awaitsInput then rest restBound (publishing sj.2 (sj.1.take input)) else sj

/-- The reader takes bytes. How they are cut into chunks makes no difference,
    since it takes them one by one. -/
def consumeBytes (sj : WithJournal) (bytes : List UInt8) : WithJournal :=
  bytes.foldl (fun sj b => consume sj (.byte b)) sj

/-- The line that would be taken next. -/
def front? (s : LogStream) : Option LogLine :=
  s.queued[s.taken]?.map fun text => ⟨s.taken, text⟩

/-- Takes the oldest line off the queue, if there is one. -/
def next? (s : LogStream) : Option LogLine × LogStream :=
  match s.front? with
  | some line => (some line, { s with taken := s.taken + 1 })
  | none => (none, s)

/-- The lines on the queue, oldest first. -/
def waiting (s : LogStream) : List LogLine :=
  (s.queued.toList.drop s.taken).zipIdx.map fun (text, i) => ⟨s.taken + i, text⟩

/-- Takes every line off the queue. -/
def drain (s : LogStream) : List LogLine × LogStream :=
  (s.waiting, { s with taken := s.queued.size })

end LogStream

end SoftPlc
