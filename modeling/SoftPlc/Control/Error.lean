import SoftPlc.Address
import SoftPlc.Control.Command
import SoftPlc.Duration
import SoftPlc.Text.Quoted

/-!
# Why an exchange with the engine failed

An exchange fails in one of three ways: something refused it, nothing came in
time, or an answer came that makes no sense. The first two mean that the
engine could not be reached. Each error has a label for machines, a sentence
for operators, and a shorter message that other errors embed.

## Main definitions

* `ControlError`: Why an exchange failed.
* `ControlError.label`: Its stable label.
* `ControlError.text`: Its sentence.
* `ControlError.message`: Its short message.
-/

namespace SoftPlc

/-- Why an exchange with the engine failed. -/
inductive ControlError where
  /-- The system refused to connect, write or read. -/
  | unreachable (address : Address) (reason : String)
  /-- A time limit ran out. -/
  | timedOut (address : Address) (after : Duration)
  /-- The reply is no answer to the command. -/
  | malformedReply (command reply : String)
  deriving DecidableEq, Repr, Inhabited

namespace ControlError

/-- The stable label of an error. -/
def label : ControlError → String
  | unreachable .. => "control_unreachable"
  | timedOut .. => "control_timed_out"
  | malformedReply .. => "control_malformed_reply"

/-- The sentence about a reply that makes no sense. -/
def malformedText (command reply : String) : String :=
  "malformed reply to " ++ command ++ ": " ++ Text.quoted reply

/-- The sentence shown to an operator. -/
def text : ControlError → String
  | unreachable address reason => "engine unreachable at " ++ address.text ++ ": " ++ reason
  | timedOut address after =>
    "engine at " ++ address.text ++ " did not answer within " ++ after.text
  | malformedReply command reply => malformedText command reply

/-- The short message that other errors embed. -/
def message : ControlError → String
  | unreachable address reason => "unreachable " ++ address.text ++ ": " ++ reason
  | timedOut address after => "timeout " ++ address.text ++ " after " ++ after.text
  | malformedReply command reply => malformedText command reply

/-- The engine could not be reached, as opposed to having answered nonsense. -/
def isUnreachable : ControlError → Bool
  | unreachable .. => true
  | timedOut .. => true
  | malformedReply .. => false

end ControlError

end SoftPlc
