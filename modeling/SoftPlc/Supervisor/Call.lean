import SoftPlc.RuntimeError
import SoftPlc.Status

/-!
# Calls to the supervisor

Several callers may use the supervisor at once, each call running without
interruption from one point where it has to wait to the next. This module says
where those points are and what a call does after each, as plain data, so that
every interleaving of calls is a list of steps on a list of calls.

Nearly every operation begins by settling the status: it probes the engine, or
waits for the probe of another caller, and only then acts. What it is to do
afterwards is its `Goal`. Stopping occurs inside other operations too, which
is what `AfterStop` records.

A waiting call is woken by a signal that is sent whenever a probe is settled
or abandoned. Whether the signal has come is part of where the call stands.

## Main definitions

* `Toggle`: Enabling or disabling a service.
* `Goal`: What a call does once the status is settled.
* `Call`: Where a call waits.
* `Call.exchange?`: The command whose reply it waits for.
* `Outcome`: What a call comes to.
-/

namespace SoftPlc

/-- Enabling a service, or disabling it; the port a service was disabled on is
    only mentioned in the event. -/
inductive Toggle where
  | enable (service : Service) (value : UInt32)
  | disable (service : Service) (port : Option UInt32)
  deriving DecidableEq, Repr, Inhabited

namespace Toggle

/-- The service that is toggled. -/
def service : Toggle → Service
  | enable service _ => service
  | disable service _ => service

/-- The command that toggles it. -/
def command : Toggle → Command
  | enable service value => .start service value
  | disable service _ => .stop service

/-- Whether a service is to run, as a toggle. -/
def ofSetting : Service × Option UInt32 → Toggle
  | (service, some value) => .enable service value
  | (service, none) => .disable service none

end Toggle

/-- The services that failed so far, oldest first. -/
abbrev Failures := List (Service × RuntimeError)

/-- A toggle on its own, or as part of a plan that goes on whatever happens. -/
inductive Errand where
  | single (toggle : Toggle)
  | plan (toggle : Toggle) (rest : List Toggle) (failures : Failures)
  deriving DecidableEq, Repr, Inhabited

/-- The toggle an errand is at. -/
def Errand.toggle : Errand → Toggle
  | single toggle => toggle
  | plan toggle _ _ => toggle

/-- What happens after the engine was asked to quit. -/
inductive AfterStop where
  /-- The caller is told. -/
  | answer
  /-- A compilation begins, whether the engine quit or not. -/
  | compile (source : List UInt8)
  /-- The background work is ended, whether the engine quit or not. -/
  | shutdown
  deriving DecidableEq, Repr, Inhabited

/-- What a call does once the status is settled. -/
inductive Goal where
  | start
  | stop (after : AfterStop)
  | compile (source : List UInt8)
  | execTime
  | runtimeLogs
  | toggle (errand : Errand)
  deriving DecidableEq, Repr, Inhabited

/-- Where a call waits. -/
inductive Call where
  /-- For the reply to its own probe, being nothing but a question for the
      status. -/
  | asking
  /-- For the reply to its own probe. -/
  | probing (goal : Goal)
  /-- For another caller's probe; it may have been signalled. -/
  | waiting (goal : Goal) (signalled : Bool)
  /-- For the reply to the order to quit. -/
  | quitting (after : AfterStop)
  /-- For the uptime. -/
  | readingTime
  /-- For the log. -/
  | readingLogs
  /-- For the reply to a toggle. -/
  | toggling (errand : Errand)
  /-- For the background work to end. -/
  | closing
  deriving DecidableEq, Repr, Inhabited

namespace Call

/-- The call has a liveness probe under way. -/
def isProbe : Call → Bool
  | asking => true
  | probing _ => true
  | _ => false

/-- The command whose reply the call waits for. -/
def exchange? : Call → Option Command
  | asking => some .execTime
  | probing _ => some .execTime
  | waiting _ _ => none
  | quitting _ => some .quit
  | readingTime => some .execTime
  | readingLogs => some .runtimeLogs
  | toggling errand => some errand.toggle.command
  | closing => none

/-- The call waits for another's probe and has been signalled. -/
def isSignalled : Call → Bool
  | waiting _ signalled => signalled
  | _ => false

/-- Signals a call that waits for another's probe. -/
def signal : Call → Call
  | waiting goal _ => waiting goal true
  | call => call

end Call

/-- What a caller may ask for. -/
inductive Request where
  | status
  | start
  | stop
  | compile (source : List UInt8)
  | execTime
  | runtimeLogs
  | toggle (toggle : Toggle)
  | applyServices (settings : ServiceSettings)
  | shutdown
  deriving DecidableEq, Repr, Inhabited

section

-- For the outcomes that carry a result. Elsewhere results are not compared.
local instance decidableEqResult {α : Type} [DecidableEq α] :
    DecidableEq (Except RuntimeError α)
  | .ok a, .ok b => decidable_of_iff (a = b) ⟨congrArg Except.ok, Except.ok.inj⟩
  | .error a, .error b => decidable_of_iff (a = b) ⟨congrArg Except.error, Except.error.inj⟩
  | .ok _, .error _ => isFalse fun h => nomatch h
  | .error _, .ok _ => isFalse fun h => nomatch h

/-- What a call comes to. -/
inductive Outcome where
  | status (status : RuntimeStatus)
  /-- The status after a start. -/
  | started (result : Except RuntimeError RuntimeStatus)
  | acknowledged (result : Except RuntimeError Unit)
  | text (text : String)
  /-- The services that could not be set. -/
  | applied (failures : Failures)
  | shutDown
  deriving DecidableEq, Repr, Inhabited

end

end SoftPlc
