import SoftPlc.Supervisor.Turn

/-!
# Steps of the supervisor

Everything that can happen to the supervisor, one thing at a time: a caller
begins a call, gets the reply it waits for, is woken, or gives up; a compile
reader takes input or makes its next write; a process exits. Any interleaving
of any number of callers with any engine and any compiler is a list of such
actions, and what the supervisor does is `Supervisor.step` along that list.

An action may only happen when it makes sense, and `step` is `none` otherwise:
only a call that waits for a reply can get one, only a signalled call can be
woken, and a process exits once.

A call that gives up while its own probe is under way puts the belief back and
signals the others, as if the probe had never been sent. Giving up at any
other point leaves no trace. The exit of an engine process is observed until
the background work is told to end, and only reported: what is believed about
the engine changes by probes alone. A compiler's exit is always observed.

## Main definitions

* `Action`: Something that happens.
* `Supervisor.step`: What the supervisor makes of it.
-/

namespace SoftPlc

/-- Something that happens to the supervisor. -/
inductive Action where
  /-- A call is made, under a number of its own. -/
  | begin (id : Nat) (request : Request)
  /-- A call gets the reply, or the error, of its exchange. -/
  | reply (id : Nat) (reply : Except ControlError String)
  /-- A call that was signalled goes on. -/
  | wake (id : Nat)
  /-- A call is given up. -/
  | abandon (id : Nat)
  /-- The background work has ended. -/
  | close (id : Nat)
  /-- The reader of a job takes input. -/
  | output (job : Nat) (input : StreamInput)
  /-- The reader of a job makes its next write. -/
  | write (job : Nat)
  /-- The compiler of a job exits; a killed one has no code. -/
  | compilerExit (job : Nat) (code : Option Int)
  /-- An engine process exits; a killed one has no code. -/
  | engineExit (engine : Nat) (code : Option Int)
  deriving Repr

namespace Supervisor

/-- A call that waits. -/
def call? (s : Supervisor) (id : Nat) : Option Call :=
  s.calls.lookup id

/-- The state without a call. -/
def without (s : Supervisor) (id : Nat) : Supervisor :=
  { s with calls := s.calls.filter fun c => c.1 != id }

/-- Ends a turn of a call: it waits behind all others, or is over and has an
    outcome. -/
def endTurn (id : Nat) (result : Result) : Supervisor × Option Outcome :=
  match result with
  | (s, .finished outcome) => (s.without id, some outcome)
  | (s, .waits call) => ({ s.without id with calls := (s.without id).calls ++ [(id, call)] }, none)

/-- A call is made. -/
def begin (env : Surroundings) (id : Nat) (request : Request) (s : Supervisor) :
    Supervisor × Option Outcome :=
  endTurn id (s.enter env request)

/-- A call gets a reply, if it waits for one. -/
def reply (env : Surroundings) (id : Nat) (reply : Except ControlError String)
    (s : Supervisor) : Option (Supervisor × Option Outcome) :=
  match s.call? id with
  | some call =>
    if call.exchange?.isSome then some (endTurn id ((s.without id).answered env call reply))
    else none
  | none => none

/-- A call that was signalled takes the status from what is known, and waits
    again if another probe is under way. -/
def wake (env : Surroundings) (id : Nat) (s : Supervisor) :
    Option (Supervisor × Option Outcome) :=
  match s.call? id with
  | some (.waiting goal true) =>
    let s := s.without id
    some (endTurn id (s.resume env goal s.lastKnown))
  | _ => none

/-- A call is given up. -/
def abandon (id : Nat) (s : Supervisor) : Option Supervisor :=
  match s.call? id with
  | some call =>
    let s := s.without id
    some (if call.isProbe then s.dropProbe.signalWaiting else s)
  | none => none

/-- The background work has ended, for the call that waits for it. -/
def close (id : Nat) (s : Supervisor) : Option (Supervisor × Option Outcome) :=
  match s.call? id with
  | some .closing => some (s.without id, some .shutDown)
  | _ => none

/-- The compiler of a job exits. -/
def compilerExit (i : Nat) (code : Option Int) (s : Supervisor) : Option Supervisor :=
  match s.jobs[i]? with
  | some job =>
    if job.exited.isSome then none
    else
      let s := { s with jobs := s.jobs.set i (job.exit code) }
      some (s.publish { kind := .compilerExited, exitCode := code })
  | none => none

/-- An engine process exits. -/
def engineExit (i : Nat) (code : Option Int) (s : Supervisor) : Option Supervisor :=
  match s.engines[i]? with
  | some engine =>
    if engine.exited then none
    else
      let s := { s with engines := s.engines.set i { engine with exited := true } }
      if s.cancelled then some s
      else some (s.publish { kind := .runtimeExited, pid := engine.pid, exitCode := code })
  | none => none

/-- The reader of a job takes input, if it waits for some. -/
def output (i : Nat) (input : StreamInput) (s : Supervisor) : Option Supervisor :=
  match s.jobs[i]? with
  | some job =>
    if job.stream.awaitsInput then
      some (s.updateJob i fun job j =>
        let (stream, j) := LogStream.publishing j (job.stream.take input)
        ({ job with stream }, j))
    else none
  | none => none

/-- The reader of a job makes its next write, if it has one to make. -/
def write (i : Nat) (s : Supervisor) : Option Supervisor :=
  match s.jobs[i]? with
  | some job =>
    if job.stream.awaitsInput || job.stream.isStopped then none
    else
      some (s.updateJob i fun job j =>
        let (stream, j) := LogStream.publishing j job.stream.act
        ({ job with stream }, j))
  | none => none

/-- What the supervisor makes of an action, and the outcome of the call that
    it ends, if it ends one. -/
def step (env : Surroundings) (s : Supervisor) (action : Action) :
    Option (Supervisor × Option Outcome) :=
  match action with
  | .begin id request => if (s.call? id).isSome then none else some (s.begin env id request)
  | .reply id r => s.reply env id r
  | .wake id => s.wake env id
  | .abandon id => (s.abandon id).map (·, none)
  | .close id => s.close id
  | .output job input => (s.output job input).map (·, none)
  | .write job => (s.write job).map (·, none)
  | .compilerExit job code => (s.compilerExit job code).map (·, none)
  | .engineExit engine code => (s.engineExit engine code).map (·, none)

end Supervisor

end SoftPlc
