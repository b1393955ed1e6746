import SoftPlc.Lane
import Mathlib.Data.List.Forall2

/-!
# What a delivery places

A delivery to an attended lane places at most two things in its queue: the
marker of a pending gap, and the event itself behind it. Which of them it
places is settled by the lane alone, before any event is made, and the number
that a marker draws from the journal plays no part in it. `Lane.placements`
says it without the journal, and `deliver_eq` says that the queue grows by
exactly that.

A placement remembers what an entry of the queue is there for. The entry
itself cannot say: an event that looks like a marker may also be handed to a
lane from outside, and one event may be handed over many times. So an event is
known by its position among those that the lane accepted.

## Main definitions

* `Placement`: What an entry of a queue is there for.
* `Placement.Shows`: Which entry belongs to a placement.
* `Lane.placements`: What a delivery places.
* `Lane.leftOut`: How many lines are left out after it.

## Theorems

* `deliverHere_eq`: What delivering an event as it is comes to.
* `deliver_eq`: What a delivery comes to.
* `emit_lane`: What an emission comes to for one lane of many.
-/

namespace SoftPlc

/-- What an entry of a lane's queue is there for. -/
inductive Placement where
  /-- An event handed to the lane, with its position among those accepted. -/
  | passed (position : Nat) (e : Event)
  /-- A marker that the lane made for so many lines. -/
  | marker (lines : Nat)
  deriving DecidableEq, Repr

/-- The entry that belongs to a placement. A marker's number is left open. -/
def Placement.Shows (name : String) : Placement → Event → Prop
  | passed _ e, entry => entry = e
  | marker lines, entry => entry.notice = .outputSkipped name lines

namespace Lane

/-- The marker of a pending gap, if it fits. -/
def gap (l : Lane) : List Placement :=
  if l.skipped ≠ 0 ∧ l.queue.length < l.capacity then [.marker l.skipped] else []

/-- There is room for an event behind the marker. -/
def HasRoom (l : Lane) : Prop :=
  l.queue.length + l.gap.length < l.capacity

instance (l : Lane) : Decidable l.HasRoom :=
  inferInstanceAs (Decidable (_ < _))

/-- What a delivery places, the event being the lane's next at a position. -/
def placements (l : Lane) (position : Nat) (e : Event) : List Placement :=
  l.gap ++ if l.HasRoom then [.passed position e] else []

/-- How many lines are left out after a delivery. -/
def leftOut (l : Lane) (e : Event) : Nat :=
  (if l.gap = [] then l.skipped else 0) + if e.notice.isLine ∧ ¬ l.HasRoom then 1 else 0

/-- An event that is offered is placed where there is room. -/
theorem offer_of_room (l : Lane) (e : Event) (ha : l.state = .attended)
    (hr : l.queue.length < l.capacity) :
    l.offer e = .placed { l with queue := l.queue ++ [e] } := by
  simp only [offer, ha, if_pos hr]

/-- It is not placed where there is none, and nothing is pushed out for it. -/
theorem offer_of_no_room (l : Lane) (e : Event) (ha : l.state = .attended)
    (hr : ¬ l.queue.length < l.capacity) : l.offer e = .full := by
  simp only [offer, ha, if_neg hr]

/-- Delivering an event as it is queues it if there is room, and counts it if
    there is none and it is a line. -/
theorem deliverHere_eq (l : Lane) (e : Event) (j : Journal) (ha : l.state = .attended) :
    (l.deliverHere e j).1 =
      if l.queue.length < l.capacity then { l with queue := l.queue ++ [e] }
      else if e.notice.isLine then { l with skipped := l.skipped + 1 } else l := by
  by_cases hr : l.queue.length < l.capacity
  · simp only [deliverHere, offer_of_room l e ha hr, if_pos hr]
  · simp only [deliverHere, offer_of_no_room l e ha hr, if_neg hr]
    split <;> rfl

/-- With no gap pending an event is delivered as it is. -/
theorem deliver_of_no_gap (l : Lane) (e : Event) (j : Journal) (hs : l.skipped = 0) :
    l.deliver e j = l.deliverHere e j := by
  rw [deliver, if_pos hs]

/-- The marker of a pending gap fits, and the event is delivered behind it. -/
theorem deliver_of_marker (l : Lane) (e : Event) (j : Journal) (ha : l.state = .attended)
    (hs : l.skipped ≠ 0) (hr : l.queue.length < l.capacity) :
    ∃ marker, marker.notice = .outputSkipped l.subscriber.name l.skipped ∧
      (l.deliver e j).1 =
        if l.queue.length + 1 < l.capacity then
          { l with queue := l.queue ++ [marker, e], skipped := 0 }
        else { l with queue := l.queue ++ [marker], skipped := if e.notice.isLine then 1 else 0 } := by
  refine ⟨⟨j.next, .outputSkipped l.subscriber.name l.skipped⟩, rfl, ?_⟩
  simp only [deliver, if_neg hs, Journal.make, offer_of_room l _ ha hr]
  rw [deliverHere_eq _ e _ (by exact ha)]
  simp only [List.length_append, List.length_singleton, List.append_assoc, List.singleton_append]
  -- The capacity does not depend on what is queued.
  by_cases hr' : l.queue.length + 1 < l.capacity
  · rw [if_pos hr']
    exact if_pos hr'
  · rw [if_neg hr']
    refine (if_neg hr').trans ?_
    split <;> rfl

/-- The marker of a pending gap does not fit, and then neither does the event. -/
theorem deliver_of_full (l : Lane) (e : Event) (j : Journal) (ha : l.state = .attended)
    (hs : l.skipped ≠ 0) (hr : ¬ l.queue.length < l.capacity) :
    (l.deliver e j).1 = { l with skipped := l.skipped + if e.notice.isLine then 1 else 0 } := by
  simp only [deliver, if_neg hs, Journal.make, offer_of_no_room l _ ha hr]
  by_cases hl : e.notice.isLine
  · rw [if_pos hl, if_pos hl]
  · rw [if_neg hl, if_neg hl, deliverHere_eq l e _ ha, if_neg hr, if_neg hl, Nat.add_zero]

/-- What a delivery to an attended lane comes to: its queue grows by the
    placements, and what is left out is counted. -/
theorem deliver_eq (l : Lane) (position : Nat) (e : Event) (j : Journal)
    (ha : l.state = .attended) :
    ∃ entries, (l.deliver e j).1
        = { l with queue := l.queue ++ entries, skipped := l.leftOut e } ∧
      List.Forall₂ (Placement.Shows l.subscriber.name) (l.placements position e) entries := by
  by_cases hs : l.skipped = 0
  · have hgap : l.gap = [] := by
      rw [gap, if_neg (fun hc => hc.1 hs)]
    rw [deliver_of_no_gap l e j hs, deliverHere_eq l e j ha]
    by_cases hr : l.queue.length < l.capacity
    · refine ⟨[e], ?_, ?_⟩
      · simp [leftOut, HasRoom, hgap, hr]
      · simp [placements, HasRoom, hgap, hr, Placement.Shows]
    · refine ⟨[], ?_, ?_⟩
      · by_cases hl : e.notice.isLine <;> simp [leftOut, HasRoom, hgap, hr, hl]
      · simp [placements, HasRoom, hgap, hr]
  · by_cases hr : l.queue.length < l.capacity
    · have hgap : l.gap = [.marker l.skipped] := by
        rw [gap, if_pos ⟨hs, hr⟩]
      rcases deliver_of_marker l e j ha hs hr with ⟨marker, hm, hd⟩
      rw [hd]
      by_cases hr' : l.queue.length + 1 < l.capacity
      · refine ⟨[marker, e], ?_, ?_⟩
        · simp [leftOut, HasRoom, hgap, hr']
        · simp [placements, HasRoom, hgap, hr', Placement.Shows, hm]
      · refine ⟨[marker], ?_, ?_⟩
        · simp [leftOut, HasRoom, hgap, hr']
        · simp [placements, HasRoom, hgap, hr', Placement.Shows, hm]
    · have hgap : l.gap = [] := by
        rw [gap, if_neg (fun hc => hr hc.2)]
      refine ⟨[], ?_, ?_⟩
      · rw [deliver_of_full l e j ha hs hr]
        simp [leftOut, HasRoom, hgap, hr]
      · simp [placements, HasRoom, hgap, hr]

end Lane

/-- What an emission to a lane among others comes to. The lanes before it only
    decide with which journal its turn comes. -/
theorem emit_lane (lanes : List Lane) (e : Event) (j : Journal) (k : Nat) :
    ∃ j', (emit lanes e j).1[k]? =
      lanes[k]?.map fun l => if l.accepts e.kind then (l.deliver e j').1 else l := by
  induction lanes generalizing j k with
  | nil => exact ⟨j, by simp [emit]⟩
  | cons l rest ih =>
      cases k with
      | zero =>
          refine ⟨j, ?_⟩
          simp only [emit, List.getElem?_cons_zero, Option.map_some]
          split <;> rfl
      | succ k =>
          simp only [emit, List.getElem?_cons_succ]
          exact ih _ k

end SoftPlc
