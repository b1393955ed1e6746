import SoftPlc.Compile.Job
import SoftPlc.Config
import SoftPlc.Supervisor.Call

/-!
# The state of the supervisor

What the supervisor believes and keeps. The belief about the engine is not the
status that callers see: a compilation that has not ended hides it, whatever
the engine does meanwhile. Every start of the engine is numbered and dated,
and the belief says which start it is about.

All jobs ever started are kept, because the reader of a superseded job goes on
reading and publishing; the current one is an index among them. Calls that
wait are kept in the order in which they began to.

`Supervisor.check` is the part of a status question that happens at once. It
answers from what is known, or decides that the engine must be probed and
notes that a probe is under way. `settleProbe` takes the result. It looks only
at whether some probe is noted at that moment, because a stop may have been
acknowledged in between.

## Main definitions

* `Belief`: What is believed about the engine.
* `Supervisor`: The whole state.
* `Supervisor.lastKnown`: The status without a probe.
* `Supervisor.check`: The part of a status question that happens at once.
* `Supervisor.settleProbe`: What the reply to a probe changes.
* `Supervisor.dropProbe`: What abandoning a probe changes.
-/

namespace SoftPlc

/-- One start of the engine. -/
structure Launch where
  /-- Which start it is, counted from zero. -/
  number : Nat
  /-- When it was, in nanoseconds. -/
  startedAt : Nat
  deriving DecidableEq, Repr, Inhabited

/-- What is believed about the engine. -/
inductive Belief where
  | stopped
  | running (launch : Launch)
  /-- It was running when a probe was sent that is still under way. -/
  | probing (launch : Launch)
  deriving DecidableEq, Repr, Inhabited

/-- The launch a belief is about. -/
def Belief.launch? : Belief → Option Launch
  | stopped => none
  | running launch => some launch
  | probing launch => some launch

/-- An engine process that was launched. -/
structure EngineProcess where
  pid : Option Nat
  exited : Bool := false
  deriving DecidableEq, Repr, Inhabited

/-- The state of the supervisor. -/
structure Supervisor where
  config : Config
  journal : Journal
  belief : Belief := .stopped
  project : Project := {}
  /-- Every compile job ever started, oldest first. -/
  jobs : List Job := []
  /-- The index of the latest job. -/
  current : Option Nat := none
  /-- Every engine process ever launched, oldest first. -/
  engines : List EngineProcess := []
  /-- The calls that wait, in the order in which they began to. -/
  calls : List (Nat × Call) := []
  /-- The background work has been told to end. -/
  cancelled : Bool := false
  deriving DecidableEq, Repr, Inhabited

/-- What the outside world answers at one moment. -/
structure Surroundings where
  /-- The time, in nanoseconds. -/
  now : Nat
  /-- What launching the engine comes to: its process number, if it has one. -/
  launchEngine : Except Failure (Option Nat)
  /-- What launching the compiler for a source comes to. -/
  launchCompiler : List UInt8 → Except Failure (Option Nat)

/-- The part of a status question that happens at once. -/
inductive Check where
  | known (status : RuntimeStatus)
  /-- The engine must be probed. -/
  | probe
  deriving DecidableEq, Repr

namespace Supervisor

/-- A supervisor that has done nothing yet. -/
def initial (config : Config) : Supervisor :=
  { config, journal := { bus := .ofCapacity config.busSize } }

/-- Publishes a notice. -/
def publish (s : Supervisor) (n : Notice) : Supervisor :=
  { s with journal := s.journal.publish n }

/-- The latest job. -/
def currentJob? (s : Supervisor) : Option Job :=
  s.current.bind fun i => s.jobs[i]?

/-- A compilation has not ended yet. -/
def isCompiling (s : Supervisor) : Bool :=
  s.currentJob?.any fun j => !j.isTerminal

/-- The status, without a probe. -/
def lastKnown (s : Supervisor) : RuntimeStatus :=
  if s.isCompiling then .compiling
  else match s.belief with
    | .stopped => .stopped
    | .running _ => .running
    | .probing _ => .unknown

/-- The launch is so recent that the engine is believed without a probe. -/
def inGrace (s : Supervisor) (now : Nat) (launch : Launch) : Bool :=
  match s.config.grace? with
  | some grace => now - launch.startedAt < grace.nanos
  | none => false

/-- The part of a status question that happens at once. -/
def check (s : Supervisor) (now : Nat) : Supervisor × Check :=
  if s.isCompiling then (s, .known .compiling)
  else match s.belief with
    | .stopped => (s, .known .stopped)
    | .probing _ => (s, .known .unknown)
    | .running launch =>
      if s.inGrace now launch then (s, .known .running)
      else ({ s with belief := .probing launch }, .probe)

/-- Signals every call that waits for a probe. -/
def signalWaiting (s : Supervisor) : Supervisor :=
  { s with calls := s.calls.map fun c => (c.1, c.2.signal) }

/-- Takes the reply to a probe, and gives the status that follows from it. It
    changes nothing when no probe is noted any more. -/
def settleProbe (s : Supervisor) (reply : Except ControlError String) :
    Supervisor × RuntimeStatus :=
  match s.belief with
  | .probing launch =>
    match reply with
    | .ok _ =>
      let s := { s with belief := .running launch }
      (s, s.lastKnown)
    | .error e =>
      let s := { s with belief := .stopped }
      (s.publish { kind := .runtimeLost, reason := some e.text }, s.lastKnown)
  -- A stop was acknowledged, or the probe's note taken away, meanwhile.
  | _ => (s, s.lastKnown)

/-- A probe is abandoned without a reply: the belief is what it was before. -/
def dropProbe (s : Supervisor) : Supervisor :=
  match s.belief with
  | .probing launch => { s with belief := .running launch }
  | _ => s

/-- The output of the latest job so far; empty if nothing was compiled. -/
def pollLogText (s : Supervisor) : String × Supervisor :=
  match s.current with
  | none => ("", s)
  | some i =>
    match s.jobs[i]? with
    | none => ("", s)
    | some job =>
      let (text, job) := job.pollOutput
      (text, { s with jobs := s.jobs.set i job })

/-- How the latest compilation ended, once it has. -/
def compileReport (s : Supervisor) : Option Report :=
  s.currentJob?.bind Job.report

/-- Records the description of the program at hand. -/
def setProject (s : Supervisor) (project : Project) : Supervisor :=
  { s with project }

/-- Changes a job, with the journal at hand. -/
def updateJob (s : Supervisor) (i : Nat) (f : Job → Journal → Job × Journal) : Supervisor :=
  match s.jobs[i]? with
  | none => s
  | some job =>
    let (job, journal) := f job s.journal
    { s with jobs := s.jobs.set i job, journal }

end Supervisor

end SoftPlc
