import SoftPlc.Event
import SoftPlc.Text.Blank
import SoftPlc.Text.Quoted

/-!
# Log records

A subscriber that writes every event to the log as one record. A record opens
with a tag for the event's kind and shows the details that kind calls for.
Reasons that come from outside are quoted, so that no engine reply, path or
system message can break a record in two or pass for another one; a missing
reason is shown as an empty one. A line of compiler output is shown as it is,
without the blanks at its end.

## Main definitions

* `Level`: How urgent a record is.
* `LogRecord.ofNotice`: The record for a notice.
-/

namespace SoftPlc

/-- How urgent a record is. -/
inductive Level where
  | info
  | warn
  | error
  deriving DecidableEq, Repr, Inhabited

/-- The label of a level. -/
def Level.label : Level → String
  | info => "INFO"
  | warn => "WARN"
  | error => "ERROR"

/-- A record in the log. -/
structure LogRecord where
  level : Level
  text : String
  deriving DecidableEq, Repr, Inhabited

namespace LogRecord

/-- The channel of the log that the records belong to. -/
def channel : String := "plcvisor"

/-- The name under which the subscriber is known. -/
def writerName : String := "LogWriter"

/-- How many events may wait to be written. -/
def writerCapacity : Nat := 1024

/-- A detail that may be missing. -/
def optional {α : Type} (render : α → String) : Option α → String
  | some a => "Some(" ++ render a ++ ")"
  | none => "None"

/-- A line of output without the blanks at its end. -/
def shownLine (line : String) : String :=
  String.ofList (Text.trimEnd line.toList)

/-- The record for a notice. -/
def ofNotice (n : Notice) : LogRecord :=
  let reason := n.reason.getD ""
  let quotedReason := Text.quoted reason
  let pid := optional toString n.pid
  let code := optional toString n.exitCode
  let service := optional Text.quoted n.service
  match n.kind with
  | .runtimeStarted => ⟨.info, "[runtime-started] pid=" ++ pid⟩
  | .runtimeStopped => ⟨.info, "[runtime-stopped]"⟩
  | .runtimeStopFailed => ⟨.error, "[runtime-stop-failed] err=" ++ quotedReason⟩
  | .runtimeLost => ⟨.warn, "[runtime-lost] err=" ++ quotedReason⟩
  | .runtimeExited => ⟨.info, "[runtime-exited] pid=" ++ pid ++ " code=" ++ code⟩
  | .compileStarted => ⟨.info, "[compile-started] file=" ++ quotedReason⟩
  | .compileOutput => ⟨.info, "[compile-output] " ++ shownLine (n.line.getD "")⟩
  | .compileFinished => ⟨.info, "[compile-finished] outcome=" ++ quotedReason⟩
  | .compileStreamEnded => ⟨.warn, "[compile-stream-ended] reason=" ++ quotedReason⟩
  | .compilerExited => ⟨.info, "[compiler-exited] code=" ++ code⟩
  | .compileSuperseded => ⟨.warn, "[compile-superseded]"⟩
  | .serviceEnabled =>
    ⟨.info, "[service-enabled] service=" ++ service ++ " port=" ++ optional toString n.port⟩
  | .serviceDisabled => ⟨.info, "[service-disabled] service=" ++ service⟩
  | .controlFailed => ⟨.error, "[control-failed] err=" ++ quotedReason⟩
  | .shutdownRequested => ⟨.info, "[shutdown-requested]"⟩
  | .subscriberOverflow => ⟨.warn, "[subscriber-overflow] " ++ reason⟩
  | .compileOutputSkipped =>
    ⟨.warn, "[compile-output-skipped] lines=" ++ toString (n.skipped.getD 0)⟩
  | .subscriberPanicked => ⟨.error, "[subscriber-panicked] " ++ reason⟩

end LogRecord

end SoftPlc
