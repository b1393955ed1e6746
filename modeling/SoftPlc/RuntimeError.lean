import SoftPlc.Control.Error
import SoftPlc.Failure
import SoftPlc.Status
import SoftPlc.Text.Quoted

/-!
# Why an operation of the supervisor failed

Operations fail because a program could not be launched, the engine did not
take an order, or the moment was wrong. Like the errors of an exchange, which
some of them contain, they have a label, a sentence and a short message. An
order that the engine did not take is shown as the error of the exchange
itself; a failed stop keeps that error as its cause.

## Main definitions

* `RuntimeError`: Why an operation failed.
* `RuntimeError.cause`: The text of the underlying error, if it is a separate
  one.
-/

namespace SoftPlc

/-- Why an operation of the supervisor failed. -/
inductive RuntimeError where
  /-- A program, known by its path, could not be launched. -/
  | spawn (program : List UInt8) (reason : Failure)
  /-- The engine did not take the order to quit. -/
  | stopFailed (e : ControlError)
  /-- A compilation is under way and not to be replaced. -/
  | compileInProgress
  /-- The runtime's status forbids the action. -/
  | busy (status : RuntimeStatus) (action : String)
  /-- The engine is not running. -/
  | notRunning
  /-- The engine did not take a command. -/
  | control (e : ControlError)
  deriving DecidableEq, Repr, Inhabited

namespace RuntimeError

/-- The stable label of an error. -/
def label : RuntimeError → String
  | spawn .. => "runtime_spawn_failed"
  | stopFailed _ => "runtime_stop_failed"
  | compileInProgress => "runtime_compile_in_progress"
  | busy .. => "runtime_busy"
  | notRunning => "runtime_not_running"
  | control e => e.label

/-- The sentence shown to an operator. -/
def text : RuntimeError → String
  | spawn program reason =>
    "failed to spawn " ++ Text.quotedPath program ++ ": " ++ reason.text
  | stopFailed e => "failed to stop the runtime: " ++ e.text
  | compileInProgress => "a compilation is already in progress"
  | busy status action => "runtime is " ++ status.label ++ ", cannot " ++ action
  | notRunning => "runtime is not running"
  | control e => e.text

/-- The short message. -/
def message : RuntimeError → String
  | spawn program reason => "spawn " ++ Text.quotedPath program ++ ": " ++ reason.text
  | stopFailed e => "stop failed: " ++ e.message
  | compileInProgress => "compile in progress"
  | busy status action => action ++ " refused while " ++ status.label
  | notRunning => "not running"
  | control e => e.message

/-- The text of the underlying error, if it is a separate one. -/
def cause : RuntimeError → Option String
  | spawn _ reason => some reason.text
  | stopFailed e => some e.text
  | _ => none

end RuntimeError

end SoftPlc
