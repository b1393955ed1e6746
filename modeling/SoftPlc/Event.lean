/-!
# Events

What the supervisor, its compile jobs and its subscribers have to report. A
notice says what happened; an event is a notice with the number under which
it was made. Numbers are drawn one after the other from a single counter, so
sorting by number restores the order in which events were made, whatever way
they took to a subscriber.

Which details a notice carries depends on its kind by convention only: a
subscriber may be handed any kind with any details, and shows the ones its
kind calls for. So the details are optional fields of one record, and the
three kinds that the delivery machinery makes itself have constructors of
their own.

## Main definitions

* `EventKind`: What an event is about.
* `Notice`: A kind with its details.
* `Event`: A numbered notice.
-/

namespace SoftPlc

/-- What an event is about. -/
inductive EventKind where
  | subscriberPanicked
  | subscriberOverflow
  | compileOutputSkipped
  | runtimeStarted
  | runtimeStopped
  | runtimeStopFailed
  | runtimeLost
  | runtimeExited
  | compileStarted
  | compileOutput
  | compileFinished
  | compileStreamEnded
  | compilerExited
  | compileSuperseded
  | serviceEnabled
  | serviceDisabled
  | controlFailed
  | shutdownRequested
  deriving DecidableEq, Repr, Inhabited

/-- What happened, with the details that are known. -/
structure Notice where
  kind : EventKind
  reason : Option String := none
  /-- A line of compiler output. -/
  line : Option String := none
  /-- The name of a fieldbus service. -/
  service : Option String := none
  port : Option UInt32 := none
  /-- The number of a process. -/
  pid : Option Nat := none
  exitCode : Option Int := none
  /-- How many lines of output a subscriber missed. -/
  skipped : Option Nat := none
  deriving DecidableEq, Repr, Inhabited

namespace Notice

/-- An event was dropped because a subscriber's queue is full or closed. -/
def overflow (subscriber reason : String) : Notice :=
  { kind := .subscriberOverflow
    reason := some ("subscriber=" ++ subscriber ++ " reason=" ++ reason) }

/-- Some lines of output were left out of a subscriber's queue. -/
def outputSkipped (subscriber : String) (lines : Nat) : Notice :=
  { kind := .compileOutputSkipped, reason := some subscriber, skipped := some lines }

/-- A subscriber panicked while it handled an event. -/
def panicked (subscriber info : String) : Notice :=
  { kind := .subscriberPanicked
    reason := some ("subscriber=" ++ subscriber ++ " info=" ++ info) }

/-- The notice reports a dropped event. -/
def isOverflow (n : Notice) : Bool :=
  n.kind == .subscriberOverflow

/-- The notice reports a panic. -/
def isPanic (n : Notice) : Bool :=
  n.kind == .subscriberPanicked

/-- The notice is a line of compiler output, which may be skipped. -/
def isLine (n : Notice) : Bool :=
  n.kind == .compileOutput

end Notice

/-- A notice and the number under which it was made. -/
structure Event where
  number : Nat
  notice : Notice
  deriving DecidableEq, Repr, Inhabited

/-- What an event is about. -/
def Event.kind (e : Event) : EventKind :=
  e.notice.kind

end SoftPlc
