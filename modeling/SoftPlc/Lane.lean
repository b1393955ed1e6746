import SoftPlc.Journal

/-!
# Lanes to subscribers

Every subscriber has a lane: a bounded queue and a worker that takes one
event at a time off it and hands it to the subscriber. Delivery never waits.
What does not fit is accounted for instead, in one of two ways. A line of
compiler output is counted, and the next time something is delivered a single
marker with that count is queued first, in place of the missing lines. Any
other event that does not fit is reported on the bus; a report that does not
fit itself is dropped without a further report, or the reports would multiply.

The marker and the event behind it compete for the same room. When there is
room for the marker only, the marker stays and the event is treated as one
that did not fit, which for a line begins the next gap.

A subscriber that wants lines also gets the markers for them, and one that
does not is never sent a marker from elsewhere either.

A worker survives a panicking subscriber and reports the panic on the bus.

## Main definitions

* `Subscriber`: A name, a capacity, a filter and a reaction.
* `Lane.offer`: Putting an event on the queue, if there is room.
* `Lane.deliver`: Delivering an event, with the accounting of gaps.
* `emit`: Delivering an event to every lane that accepts it.
* `Lane.take`, `Lane.handle`: The two steps of a worker.
-/

namespace SoftPlc

/-- What a subscriber's panic carries. -/
inductive Panic where
  | text (message : String)
  /-- Something that is no text. -/
  | other
  deriving DecidableEq, Repr, Inhabited

/-- How a panic is shown. -/
def Panic.info : Panic → String
  | text message => message
  | other => "unknown panic"

/-- Someone who wants to see events. -/
structure Subscriber where
  name : String
  /-- How many events may be queued; none at all is read as one. -/
  capacity : Nat := 1024
  wants : EventKind → Bool := fun _ => true
  /-- The panic with which it meets an event, if it does. -/
  reaction : Event → Option Panic := fun _ => none

instance : Inhabited Subscriber := ⟨{ name := "" }⟩

/-- Whether a lane's queue is attended to. -/
inductive LaneState where
  | attended
  /-- Nothing more is queued; the worker finishes what is. -/
  | sealed
  /-- The worker is gone, and with it what was queued. -/
  | abandoned
  deriving DecidableEq, Repr, Inhabited

/-- The lane to a subscriber. -/
structure Lane where
  subscriber : Subscriber
  /-- The queued events, oldest first. -/
  queue : List Event := []
  /-- How many lines have been left out since the last marker. -/
  skipped : Nat := 0
  /-- The event that the worker has taken and not finished. -/
  inHand : Option Event := none
  state : LaneState := .attended

instance : Inhabited Lane := ⟨{ subscriber := default }⟩

/-- Whether an event could be queued. -/
inductive Offer where
  | placed (lane : Lane)
  | full
  | closed

namespace Lane

/-- How many events the queue holds at most. -/
def capacity (l : Lane) : Nat :=
  max l.subscriber.capacity 1

/-- The subscriber is to see events of this kind. -/
def accepts (l : Lane) (k : EventKind) : Bool :=
  match k with
  | .compileOutputSkipped => l.subscriber.wants .compileOutput
  | k => l.subscriber.wants k

/-- Puts an event on the queue, if the queue is attended to and has room. -/
def offer (l : Lane) (e : Event) : Offer :=
  match l.state with
  | .attended =>
    if l.queue.length < l.capacity then .placed { l with queue := l.queue ++ [e] } else .full
  | _ => .closed

/-- Reports an event that was dropped, unless it is itself such a report. -/
def reportDrop (l : Lane) (e : Event) (reason : String) (j : Journal) : Journal :=
  if e.notice.isOverflow then j else j.publish (.overflow l.subscriber.name reason)

/-- Delivers an event to the queue as it is, with no gap before it. -/
def deliverHere (l : Lane) (e : Event) (j : Journal) : Lane × Journal :=
  match l.offer e with
  | .placed l => (l, j)
  | .full =>
    if e.notice.isLine then ({ l with skipped := l.skipped + 1 }, j)
    else (l, l.reportDrop e "full" j)
  | .closed => (l, l.reportDrop e "closed" j)

/-- Delivers an event, a pending gap first. A line that meets a gap whose
    marker does not fit joins the gap. -/
def deliver (l : Lane) (e : Event) (j : Journal) : Lane × Journal :=
  if l.skipped = 0 then l.deliverHere e j
  else
    let (marker, j) := j.make (.outputSkipped l.subscriber.name l.skipped)
    match l.offer marker with
    | .placed l => { l with skipped := 0 }.deliverHere e j
    | _ =>
      -- Any other event is still tried, if only to be reported as dropped.
      if e.notice.isLine then ({ l with skipped := l.skipped + 1 }, j) else l.deliverHere e j

/-- The worker takes the oldest event, if it has none in hand. -/
def take (l : Lane) : Lane :=
  match l.inHand, l.queue with
  | none, e :: rest => { l with inHand := some e, queue := rest }
  | _, _ => l

/-- The worker hands over the event in hand; a panic is reported. -/
def handle (l : Lane) (j : Journal) : Lane × Journal :=
  match l.inHand with
  | none => (l, j)
  | some e =>
    let l := { l with inHand := none }
    -- A panic ends the handling of this event and nothing else.
    match l.subscriber.reaction e with
    | none => (l, j)
    | some panic => (l, j.publish (.panicked l.subscriber.name panic.info))

/-- Nothing more will be queued. -/
def close (l : Lane) : Lane :=
  match l.state with
  | .attended => { l with state := .sealed }
  | _ => l

/-- The worker is destroyed with what it holds. -/
def abandon (l : Lane) : Lane :=
  { l with state := .abandoned, queue := [], inHand := none }

end Lane

/-- Delivers an event to every lane that accepts it, in the order of the
    lanes. -/
def emit : List Lane → Event → Journal → List Lane × Journal
  | [], _, j => ([], j)
  | l :: rest, e, j =>
    let (l, j) := if l.accepts e.kind then l.deliver e j else (l, j)
    let (rest, j) := emit rest e j
    (l :: rest, j)

end SoftPlc
