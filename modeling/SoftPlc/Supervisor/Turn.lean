import SoftPlc.Supervisor.State
import SoftPlc.Uptime

/-!
# What a call does between two waits

Each operation of the supervisor is cut at the points where it waits. A turn
is the work from one such point to the next: it changes the state and either
finishes with an outcome or ends in another wait.

`settleThen` is the beginning that most operations share. The engine is probed
if that is called for; while another caller's probe is under way the call
waits; otherwise the status is known and the operation goes on at once. What
each operation does with the status is its `…At` function, used both when the
status is known at once and when the call resumes.

Compiling over a running engine asks it to quit first and goes on whether it
did or not. The admission of a compilation is decided twice, before and after
that exchange, because another caller may have been admitted meanwhile. The
announcement that a job is superseded comes before the new compiler is
launched.

Applying service settings never stops early: a service that fails is noted,
and the next is attempted.

## Main definitions

* `Turn`: How a turn ends.
* `Supervisor.settleThen`: The beginning that most operations share.
* `Supervisor.enter`: The first turn of a request.
* `Supervisor.proceed`: The turn of a call whose status has been settled.
* `Supervisor.answered`: The turn of a call that got its reply.
-/

namespace SoftPlc

/-- How a turn ends. -/
inductive Turn where
  | finished (outcome : Outcome)
  | waits (call : Call)
  deriving Repr, Inhabited

/-- The state after a turn, and how it ended. -/
abbrev Supervisor.Result := Supervisor × Turn

namespace Supervisor

/-- How many parts of the uptime are shown. -/
def uptimeGranularity : Nat := 4

/-- Settles the status and goes on with it, or waits to do so. -/
def settleThen (s : Supervisor) (now : Nat) (goal : Goal)
    (go : RuntimeStatus → Supervisor → Result) : Result :=
  match s.check now with
  | (s, .probe) => (s, .waits (.probing goal))
  | (s, .known .unknown) => (s, .waits (.waiting goal false))
  | (s, .known status) => go status s

/-- What a start comes to when it launches nothing. -/
def startRefusal : RuntimeStatus → Except RuntimeError RuntimeStatus
  | .running => .ok .running
  | status => .error (.busy status "start")

/-- Launches the engine. -/
def launch (env : Surroundings) (s : Supervisor) : Result :=
  match env.launchEngine with
  | .error reason => (s, .finished (.started (.error (.spawn s.config.engine.program reason))))
  | .ok pid =>
    let s := { s with
      belief := .running ⟨s.engines.length, env.now⟩
      engines := s.engines ++ [EngineProcess.mk pid false] }
    (s.publish { kind := .runtimeStarted, pid }, .finished (.started (.ok .running)))

/-- Starts the engine, given the settled status. -/
def startAt (env : Surroundings) (status : RuntimeStatus) (s : Supervisor) : Result :=
  match status, s.lastKnown with
  | .stopped, .stopped => s.launch env
  -- Another caller has been faster since the status was settled.
  | .stopped, other => (s, .finished (.started (startRefusal other)))
  | other, _ => (s, .finished (.started (startRefusal other)))

/-- Launches the compiler, unless a compilation is under way that must not be
    replaced. -/
def compileNow (env : Surroundings) (source : List UInt8) (s : Supervisor) : Result :=
  if s.isCompiling && s.config.admission == .reject then
    (s, .finished (.acknowledged (.error .compileInProgress)))
  else
    -- Announced although the launch may still fail, and the old job stay.
    let s := if s.isCompiling then s.publish { kind := .compileSuperseded } else s
    match env.launchCompiler source with
    | .error reason =>
      (s, .finished (.acknowledged (.error (.spawn s.config.compiler.program reason))))
    | .ok pid =>
      let s := s.publish
        { kind := .compileStarted, reason := some (Text.shownPath source), pid }
      ({ s with jobs := s.jobs ++ [Job.start source], current := some s.jobs.length },
        .finished (.acknowledged (.ok ())))

/-- Tells the background work to end. Only the first caller waits for it. -/
def cancel (s : Supervisor) : Result :=
  if s.cancelled then (s, .finished .shutDown)
  else ({ s with cancelled := true }, .waits .closing)

/-- Goes on after the engine was asked to quit, or needed not to be asked. -/
def afterStop (env : Surroundings) (after : AfterStop) (result : Except RuntimeError Unit)
    (s : Supervisor) : Result :=
  match after with
  | .answer => (s, .finished (.acknowledged result))
  | .compile source => s.compileNow env source
  | .shutdown => s.cancel

/-- Asks the engine to quit, given the settled status. -/
def stopAt (env : Surroundings) (after : AfterStop) (status : RuntimeStatus) (s : Supervisor) :
    Result :=
  match status with
  | .running => (s, .waits (.quitting after))
  | .stopped => s.afterStop env after (.ok ())
  | other => s.afterStop env after (.error (.busy other "stop"))

/-- Stops the engine and goes on. -/
def stopThen (env : Surroundings) (after : AfterStop) (s : Supervisor) : Result :=
  s.settleThen env.now (.stop after) (stopAt env after)

/-- Compiles a source, given the settled status. -/
def compileAt (env : Surroundings) (source : List UInt8) (status : RuntimeStatus)
    (s : Supervisor) : Result :=
  match status with
  | .compiling =>
    if s.config.admission == .reject then
      (s, .finished (.acknowledged (.error .compileInProgress)))
    else s.compileNow env source
  | .running => s.stopThen env (.compile source)
  | _ => s.compileNow env source

/-- Toggles the services of a plan one after the other, until one has to
    wait. -/
def applyPlan (env : Surroundings) : List Toggle → Failures → Supervisor → Result
  | [], failures, s => (s, .finished (.applied failures))
  | toggle :: rest, failures, s =>
    let errand := Errand.plan toggle rest failures
    s.settleThen env.now (.toggle errand) fun status s =>
      if status = .running then (s, .waits (.toggling errand))
      else applyPlan env rest (failures ++ [(toggle.service, .notRunning)]) s

/-- Goes on after one toggle has succeeded or failed. -/
def afterToggle (env : Surroundings) (errand : Errand) (result : Except RuntimeError Unit)
    (s : Supervisor) : Result :=
  match errand with
  | .single _ => (s, .finished (.acknowledged result))
  | .plan toggle rest failures =>
    match result with
    | .ok () => s.applyPlan env rest failures
    | .error e => s.applyPlan env rest (failures ++ [(toggle.service, e)])

/-- The turn of a call whose status has been settled. -/
def proceed (env : Surroundings) (goal : Goal) (status : RuntimeStatus) (s : Supervisor) :
    Result :=
  match goal with
  | .start => s.startAt env status
  | .stop after => s.stopAt env after status
  | .compile source => s.compileAt env source status
  | .execTime =>
    if status = .running then (s, .waits .readingTime)
    else (s, .finished (.text RuntimeStatus.notAvailableText))
  | .runtimeLogs =>
    if status = .running then (s, .waits .readingLogs)
    else (s, .finished (.text RuntimeStatus.notRunningText))
  | .toggle errand =>
    if status = .running then (s, .waits (.toggling errand))
    else s.afterToggle env errand (.error .notRunning)

/-- Settles the status for a goal and goes on with it, or waits to do so. -/
def pursue (env : Surroundings) (goal : Goal) (s : Supervisor) : Result :=
  s.settleThen env.now goal (proceed env goal)

/-- Shuts down: the engine is stopped if it is believed to run. -/
def shutDown (env : Surroundings) (s : Supervisor) : Result :=
  let s := s.publish { kind := .shutdownRequested }
  -- A compilation hides the belief, and the engine is then left alone.
  match s.lastKnown with
  | .running => s.stopThen env .shutdown
  | .unknown => s.stopThen env .shutdown
  | _ => s.cancel

/-- The first turn of a request. -/
def enter (env : Surroundings) (request : Request) (s : Supervisor) : Result :=
  match request with
  | .status =>
    match s.check env.now with
    | (s, .probe) => (s, .waits .asking)
    | (s, .known status) => (s, .finished (.status status))
  | .start => s.pursue env .start
  | .stop => s.pursue env (.stop .answer)
  | .compile source => s.pursue env (.compile source)
  | .execTime => s.pursue env .execTime
  | .runtimeLogs => s.pursue env .runtimeLogs
  | .toggle toggle => s.pursue env (.toggle (.single toggle))
  | .applyServices settings => s.applyPlan env (settings.toList.map Toggle.ofSetting) []
  | .shutdown => s.shutDown env

/-- Goes on with a status that came from a probe, the caller's own or
    another's. An unknown one is waited for again. -/
def resume (env : Surroundings) (goal : Goal) (status : RuntimeStatus) (s : Supervisor) :
    Result :=
  match status with
  | .unknown => s.pursue env goal
  | status => s.proceed env goal status

/-- The uptime as text, from the reply to the query for it. -/
def uptimeText (reply : Except ControlError String) : String :=
  match reply.bind readSeconds with
  | .ok seconds => Uptime.text seconds uptimeGranularity
  | .error _ => RuntimeStatus.unreachableText

/-- The log as text, from the reply to the query for it. -/
def logsText : Except ControlError String → String
  | .ok logs => logs
  | .error _ => RuntimeStatus.unreachableText

/-- The event that a service was toggled. -/
def toggleNotice : Toggle → Notice
  | .enable service value =>
    { kind := .serviceEnabled, service := some service.name, port := some value }
  | .disable service port =>
    { kind := .serviceDisabled, service := some service.name, port }

/-- The turn of a call that got the reply, or the error, of its exchange. A
    call without an exchange stays where it is. -/
def answered (env : Surroundings) (call : Call) (reply : Except ControlError String)
    (s : Supervisor) : Result :=
  match call with
  | .asking =>
    let (s, status) := s.settleProbe reply
    (s.signalWaiting, .finished (.status status))
  | .probing goal =>
    let (s, status) := s.settleProbe reply
    s.signalWaiting.resume env goal status
  | .quitting after =>
    match reply with
    | .ok _ =>
      -- This also ends a probe that another caller has begun meanwhile.
      let s := { s with belief := .stopped }
      (s.publish { kind := .runtimeStopped }).afterStop env after (.ok ())
    | .error e =>
      (s.publish { kind := .runtimeStopFailed, reason := some e.text }).afterStop env after
        (.error (.stopFailed e))
  | .readingTime => (s, .finished (.text (uptimeText reply)))
  | .readingLogs => (s, .finished (.text (logsText reply)))
  | .toggling errand =>
    match reply with
    | .ok _ => (s.publish (toggleNotice errand.toggle)).afterToggle env errand (.ok ())
    | .error e =>
      let reason := errand.toggle.command.wire ++ ": " ++ e.text
      (s.publish { kind := .controlFailed, reason := some reason }).afterToggle env errand
        (.error (.control e))
  | call => (s, .waits call)

end Supervisor

end SoftPlc
