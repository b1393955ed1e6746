import SoftPlc.Compile.Job
import SoftPlc.Compile.Waiting
import SoftPlc.Text.Quoted

/-!
# Trying out the log stream

A compile job over a stream that is fed by hand, with a receiver on its bus
and any number of reads that wait. Time passes only while something waits.

A read that is begun does not run at once, but only when a later step has to
wait for something; steps that need not wait come before it. Reads run in the
order in which they began, and those that have to wait go on in the order in
which they were put to sleep.

## Main definitions

* `StreamStep`: Something done to the stream or the job.
* `StreamBench.step`: What it answers.
-/

namespace SoftPlc.Bench

/-- Something done to the stream or the job. -/
inductive StreamStep where
  | feed (bytes : List UInt8)
  | fail (reason : Failure)
  | interrupt
  | finish
  /-- Read a line, waiting for it at most so many milliseconds. -/
  | readLine (timeout : Nat)
  | tryReadLine
  | drain
  /-- Begin a read, under a name, that may wait. -/
  | beginRead (name : String) (timeout : Nat)
  /-- Wait for a read that was begun. -/
  | join (name : String)
  | isEnded
  | streamEnd
  | pollOutput
  | source
  | report
  deriving Repr, Inhabited

/-- What a step answers. -/
inductive StreamAnswer where
  | nothing
  | flag (b : Bool)
  | line (l : Option LogLine)
  | lines (ls : List LogLine)
  | ended (e : Option StreamEnd)
  | text (s : String)
  | report (r : Option Report)
  deriving Repr, Inhabited

/-- A read that was begun. -/
structure WaitingRead where
  id : Nat
  name : String
  timeout : Nat
  phase : WaitPhase := .registering
  /-- When its time is up; it starts when the read first runs. -/
  deadline : Option Nat := none
  deriving Repr, Inhabited

/-- The read is asleep. -/
def WaitingRead.isParked (r : WaitingRead) : Bool :=
  match r.phase with
  | .parked => true
  | _ => false

/-- The job, its journal, and the reads that were begun. -/
structure StreamBench where
  job : Job
  journal : Journal
  /-- The receiver that was there before the stream was read. -/
  observer : Nat
  /-- The time, in milliseconds. -/
  clock : Nat := 0
  reads : List WaitingRead := []
  deriving Inhabited

namespace StreamBench

/-- A job with nothing read yet, on a bus for so many events. -/
def start (capacity : Nat) (source : List UInt8) : StreamBench :=
  let (observer, bus) := (Bus.ofCapacity capacity).subscribe
  { job := .start source, journal := { bus }, observer }

/-- Changes the stream of the job. -/
def setStream (b : StreamBench) (stream : LogStream) : StreamBench :=
  { b with job := { b.job with stream } }

/-- Gives the reader input. The answer is whether it was still reading. -/
def feed (b : StreamBench) (inputs : List StreamInput) : Bool × StreamBench :=
  let reading := b.job.stream.awaitsInput
  let (stream, journal) := inputs.foldl LogStream.consume (b.job.stream, b.journal)
  (reading, { b.setStream stream with journal })

/-- Takes one read a turn further: it begins, or goes on after a signal. -/
def runRead (b : StreamBench) (i : Nat) : StreamBench :=
  match b.reads[i]? with
  | none => b
  | some r =>
    let due := match r.phase with
      | .registering => true
      | .parked => b.job.stream.isSignalled r.id
      | _ => false
    if due then
      let (stream, phase) :=
        match b.job.stream.beginRead (.ofMillis r.timeout) with
        | (stream, .registering) => stream.attempt r.id
        | done => done
      let deadline := r.deadline <|> some (b.clock + r.timeout)
      { b.setStream stream with reads := b.reads.set i { r with phase, deadline } }
    else b

/-- Every read that can go on does. -/
def runReads (b : StreamBench) : StreamBench :=
  (List.range b.reads.length).foldl runRead b

/-- The earliest deadline of the reads that are asleep. -/
def nextDeadline (b : StreamBench) : Option Nat :=
  ((b.reads.filter WaitingRead.isParked).filterMap WaitingRead.deadline).min?

/-- The time of every read whose deadline is the given one is up. -/
def expireAt (b : StreamBench) (time : Nat) : StreamBench :=
  (b.reads.zipIdx).foldl (fun b (r, i) =>
    if r.isParked && r.deadline == some time then
      let (line, stream) := b.job.stream.expire r.id
      { b.setStream stream with reads := b.reads.set i { r with phase := .done line } }
    else b) { b with clock := max b.clock time }

/-- Time passes up to a given moment, at most so many deadlines later. -/
def passTo (target : Nat) : Nat → StreamBench → StreamBench
  | 0, b => { b with clock := max b.clock target }
  | steps + 1, b =>
    match b.nextDeadline with
    | some d =>
      if d ≤ target then passTo target steps (b.expireAt d)
      else { b with clock := max b.clock target }
    | none => { b with clock := max b.clock target }

/-- The latest read that was begun under a name. -/
def findRead (b : StreamBench) (name : String) : Option WaitingRead :=
  b.reads.reverse.find? fun r => r.name == name

/-- Waits for a read that was begun. -/
def joinRead (b : StreamBench) (name : String) : Option LogLine × StreamBench :=
  match b.findRead name with
  | none => (none, b)
  | some { phase := .done line, .. } => (line, b)
  | some _ =>
    let b := b.runReads
    match b.findRead name with
    | some { phase := .done line, .. } => (line, b)
    | some { deadline := some d, .. } =>
      let b := b.passTo d b.reads.length
      match b.findRead name with
      | some { phase := .done line, .. } => (line, b)
      | _ => (none, b)
    | _ => (none, b)

/-- Reads a line in the foreground. If it has to wait, the reads that were
    begun run meanwhile; nothing can be queued, so it waits in vain. -/
def readLine (b : StreamBench) (timeout : Nat) : Option LogLine × StreamBench :=
  match b.job.stream.next? with
  | (some line, stream) => (some line, b.setStream stream)
  | (none, _) =>
    if timeout = 0 || b.job.stream.raised then (none, b)
    else
      -- No input comes while the foreground waits, so no line does either.
      let b := b.runReads
      (none, b.passTo (b.clock + timeout) b.reads.length)

/-- Does one step and gives the answer. -/
def step (b : StreamBench) : StreamStep → StreamAnswer × StreamBench
  | .feed [] => (.flag true, b)
  | .feed bytes =>
    let (reading, b) := b.feed (bytes.map .byte)
    (.flag reading, b)
  | .fail reason =>
    let (reading, b) := b.feed [.failed reason]
    (.flag reading, b)
  | .interrupt =>
    let (reading, b) := b.feed [.interrupted]
    (.flag reading, b)
  | .finish =>
    let (reading, b) := b.feed [.ended]
    (.flag reading, b)
  | .readLine timeout =>
    let (line, b) := b.readLine timeout
    (.line line, b)
  | .tryReadLine =>
    let (line, stream) := b.job.stream.next?
    (.line line, b.setStream stream)
  | .drain =>
    let (lines, stream) := b.job.stream.drain
    (.lines lines, b.setStream stream)
  | .beginRead name timeout =>
    (.nothing, { b with reads := b.reads ++ [{ id := b.reads.length, name, timeout }] })
  | .join name =>
    let (line, b) := b.joinRead name
    (.line line, b)
  | .isEnded => (.flag b.job.isTerminal, b)
  | .streamEnd => (.ended b.job.stream.streamEnd, b)
  | .pollOutput =>
    let (text, job) := b.job.pollOutput
    (.text text, { b with job })
  | .source => (.text (Text.shownPath b.job.source), b)
  | .report => (.report b.job.report, b)

/-- What a step answered, and what the receiver got meanwhile. -/
structure Record where
  answer : StreamAnswer
  received : List Received
  deriving Repr, Inhabited

/-- Does one step and records it. -/
def record (b : StreamBench) (s : StreamStep) : Record × StreamBench :=
  let (answer, b) := b.step s
  let (received, journal) := b.journal.drain b.observer
  (⟨answer, received⟩, { b with journal })

/-- Does several steps in order. -/
def run (b : StreamBench) (steps : List StreamStep) : List Record :=
  (steps.foldl (fun (records, b) s =>
    let (r, b) := record b s
    (r :: records, b)) ([], b)).1.reverse

end StreamBench

end SoftPlc.Bench
