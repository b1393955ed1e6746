import SoftPlc.Proofs.Lane.Delivery

/-!
# The fate of an event

An event that is delivered to a lane has one of four fates, and the lane and
the kind of event decide which. It is queued if the queue is attended to and
has room for it behind the marker of a pending gap. Otherwise a line is counted
among the missing ones; only a line that comes to a closed lane without a gap
is treated like any other event, which is dropped and reported. A report that
is dropped is not reported in turn.

`Lane.deliver` tries things one after the other. Here a delivery is one
equation, for a lane in any state, from which all that is said about fates
follows: `Lane.deliver_fate`. What a fate means is said again without it, by
what is left of the queue, the count and the bus, so that a fate can be read off
a delivery by someone who looks at nothing else. No delivery can be read in two
ways, and none in no way: `Delivery.meets_iff`.

## Main definitions

* `Fate`: What becomes of an event.
* `Lane.fate`: What becomes of it in a lane.
* `Lane.settled`: What becomes of the lane.
* `Delivery`: An event that is delivered to a lane.
* `Delivery.Meets`: Its fate, as told by what is left.

## Theorems

* `Lane.deliver_fate`: What a delivery comes to.
* `Delivery.meets_iff`: It meets one fate.
* `Delivery.not_reported`: Which is no report, if it is a line and the lane is
  open.
-/

namespace SoftPlc

/-- What becomes of an event that a lane accepts. -/
inductive Fate where
  | queued
  /-- It is counted among the missing lines. -/
  | counted
  /-- It is dropped, and that is reported with a reason. -/
  | reported (reason : String)
  /-- It is dropped without a report. -/
  | silenced
  deriving DecidableEq, Repr

namespace Lane

variable {l : Lane} {e : Event} {j : Journal}

/-- A gap is pending, and its marker fits. -/
def Resumes (l : Lane) : Prop :=
  l.state = .attended ∧ l.skipped ≠ 0 ∧ l.queue.length < l.capacity

instance (l : Lane) : Decidable l.Resumes :=
  inferInstanceAs (Decidable (_ ∧ _))

/-- The marker that a delivery queues before its event. -/
def opening (l : Lane) (j : Journal) : List Event :=
  if l.Resumes then [⟨j.next, .outputSkipped l.subscriber.name l.skipped⟩] else []

/-- How many lines are missing behind that marker. -/
def missing (l : Lane) : Nat :=
  if l.Resumes then 0 else l.skipped

/-- Why an event could not be queued. -/
def refusal (l : Lane) : String :=
  if l.state = .attended then "full" else "closed"

/-- What becomes of an event that is delivered. A gap that is pending when the
    lane is closed never ends. -/
def fate (l : Lane) (e : Event) : Fate :=
  if l.state = .attended ∧ l.HasRoom then .queued
  else if e.notice.isLine ∧ (l.state = .attended ∨ l.skipped ≠ 0) then .counted
  else if e.notice.isOverflow then .silenced else .reported l.refusal

end Lane

/-- This kind of event can meet this fate, and the reason is the lane's. -/
def Fate.Suits (l : Lane) (e : Event) : Fate → Prop
  | .queued => True
  | .counted => e.notice.isLine = true
  | .reported reason => e.notice.isOverflow = false ∧ reason = l.refusal
  | .silenced => e.notice.isOverflow = true

namespace Lane

variable {l : Lane} {e : Event} {j : Journal}

/-- The lane after the event has met a fate. -/
def settled (l : Lane) (e : Event) (j : Journal) : Fate → Lane
  | .queued => { l with queue := l.queue ++ l.opening j ++ [e], skipped := l.missing }
  | .counted => { l with queue := l.queue ++ l.opening j, skipped := l.missing + 1 }
  | _ => { l with queue := l.queue ++ l.opening j, skipped := l.missing }

/-- What is reported of a delivery. -/
def reports (l : Lane) (e : Event) : List Notice :=
  match l.fate e with
  | .reported reason => [.overflow l.subscriber.name reason]
  | _ => []

/-- How many markers a delivery makes, queued or in vain. -/
def tries (l : Lane) : Nat :=
  if l.skipped = 0 then 0 else 1

theorem offer_of_closed (e : Event) (hc : l.state ≠ .attended) : l.offer e = .closed := by
  unfold offer
  split
  next ha => exact absurd ha hc
  next => rfl

theorem reportDrop_eq (l : Lane) (e : Event) (reason : String) (j : Journal) :
    l.reportDrop e reason j = j.publishAll
      (if e.notice.isOverflow then [] else [.overflow l.subscriber.name reason]) := by
  unfold reportDrop
  split
  next => rfl
  next => rfl

/-- Without a marker nothing is queued but the event. -/
theorem settled_of_not_resumes (h : ¬ l.Resumes) (e : Event) (j : Journal) (f : Fate) :
    l.settled e j f = match f with
      | .queued => { l with queue := l.queue ++ [e] }
      | .counted => { l with skipped := l.skipped + 1 }
      | _ => l := by
  have hopening : l.opening j = [] := if_neg h
  have hmissing : l.missing = l.skipped := if_neg h
  cases f with
  | queued => simp only [settled, hopening, hmissing, List.append_nil]
  | counted => simp only [settled, hopening, hmissing, List.append_nil]
  | reported reason => simp only [settled, hopening, hmissing, List.append_nil]
  | silenced => simp only [settled, hopening, hmissing, List.append_nil]

/-- An event that is not queued leaves the marker behind, if there was one to
    place, and nothing else. -/
theorem settled_queue {f : Fate} (hf : f ≠ .queued) (e : Event) (j : Journal) :
    (l.settled e j f).queue = l.queue ++ l.opening j := by
  cases f with
  | queued => exact absurd rfl hf
  | counted => rfl
  | reported reason => rfl
  | silenced => rfl

theorem settled_skipped {f : Fate} (hf : f ≠ .counted) (e : Event) (j : Journal) :
    (l.settled e j f).skipped = l.missing := by
  cases f with
  | queued => rfl
  | counted => exact absurd rfl hf
  | reported reason => rfl
  | silenced => rfl

/-- Whatever becomes of the event, the queue grows and the count changes, and
    that is all. -/
theorem settled_eq (l : Lane) (e : Event) (j : Journal) (f : Fate) :
    ∃ entries skipped, l.settled e j f = { l with queue := l.queue ++ entries, skipped } := by
  cases f with
  | queued => exact ⟨l.opening j ++ [e], l.missing, by rw [settled, List.append_assoc]⟩
  | counted => exact ⟨l.opening j, l.missing + 1, rfl⟩
  | reported reason => exact ⟨l.opening j, l.missing, rfl⟩
  | silenced => exact ⟨l.opening j, l.missing, rfl⟩

/-- The marker takes up as much room as is set aside for it. -/
theorem length_opening (ha : l.state = .attended) (j : Journal) :
    (l.opening j).length = l.gap.length := by
  by_cases h : l.Resumes
  · have hgap : l.gap = [.marker l.skipped] := if_pos h.2
    rw [opening, if_pos h, hgap]
    rfl
  · have hgap : l.gap = [] := if_neg fun hc => h ⟨ha, hc⟩
    rw [opening, if_neg h, hgap]
    rfl

theorem hasRoom_iff (ha : l.state = .attended) (j : Journal) :
    l.HasRoom ↔ (l.queue ++ l.opening j).length < l.capacity := by
  rw [List.length_append, length_opening ha]
  rfl

theorem hasRoom_of_not_resumes (ha : l.state = .attended) (h : ¬ l.Resumes) :
    l.HasRoom ↔ l.queue.length < l.capacity := by
  have hopening : l.opening default = [] := if_neg h
  rw [hasRoom_iff ha default, hopening, List.append_nil]

theorem fate_of_room (ha : l.state = .attended) (hr : l.HasRoom) (e : Event) :
    l.fate e = .queued :=
  if_pos ⟨ha, hr⟩

theorem fate_of_line (hr : ¬ (l.state = .attended ∧ l.HasRoom)) (hl : e.notice.isLine = true)
    (hgap : l.state = .attended ∨ l.skipped ≠ 0) : l.fate e = .counted := by
  rw [fate, if_neg hr, if_pos ⟨hl, hgap⟩]

theorem fate_of_drop (hr : ¬ (l.state = .attended ∧ l.HasRoom))
    (hl : ¬ (e.notice.isLine = true ∧ (l.state = .attended ∨ l.skipped ≠ 0))) :
    l.fate e = if e.notice.isOverflow then .silenced else .reported l.refusal := by
  rw [fate, if_neg hr, if_neg hl]

theorem room_of_queued (h : l.fate e = .queued) : l.state = .attended ∧ l.HasRoom := by
  by_contra hroom
  by_cases hl : e.notice.isLine = true ∧ (l.state = .attended ∨ l.skipped ≠ 0)
  · rw [fate_of_line hroom hl.1 hl.2] at h
    exact Fate.noConfusion h
  · rw [fate_of_drop hroom hl] at h
    split at h
    next => exact Fate.noConfusion h
    next => exact Fate.noConfusion h

/-- The fate of an event suits the lane that it is delivered to. -/
theorem suits_fate (l : Lane) (e : Event) : (l.fate e).Suits l e := by
  unfold fate
  split
  next => trivial
  next =>
    split
    next hline => exact hline.1
    next =>
      split
      next ho => exact ho
      next ho => exact ⟨Bool.eq_false_iff.mpr ho, rfl⟩

/-- An event that is dropped leaves the lane as it is, and a report unless it is
    one itself. -/
theorem reportDrop_fate (h : ¬ l.Resumes)
    (hfate : l.fate e = if e.notice.isOverflow then .silenced else .reported l.refusal) :
    (l, l.reportDrop e l.refusal j) = (l.settled e j (l.fate e), j.publishAll (l.reports e)) := by
  rw [reportDrop_eq, reports, settled_of_not_resumes h, hfate]
  by_cases ho : e.notice.isOverflow = true
  · simp only [if_pos ho]
  · simp only [if_neg ho]

/-- What delivering an event as it is comes to, if no marker goes before it and
    it is not counted for the sake of a gap. -/
theorem deliverHere_fate (h : ¬ l.Resumes) (hgap : e.notice.isLine = true → l.skipped = 0 ∨
    l.state = .attended) :
    l.deliverHere e j = (l.settled e j (l.fate e), j.publishAll (l.reports e)) := by
  by_cases ha : l.state = .attended
  · have hrefusal : l.refusal = "full" := if_pos ha
    by_cases hr : l.queue.length < l.capacity
    · have hfate : l.fate e = .queued := fate_of_room ha ((hasRoom_of_not_resumes ha h).mpr hr) e
      simp only [deliverHere, offer_of_room l e ha hr, reports, hfate, settled_of_not_resumes h]
      rfl
    · have hroom : ¬ (l.state = .attended ∧ l.HasRoom) :=
        fun hc => hr ((hasRoom_of_not_resumes ha h).mp hc.2)
      simp only [deliverHere, offer_of_no_room l e ha hr]
      by_cases hl : e.notice.isLine = true
      · have hfate : l.fate e = .counted := fate_of_line hroom hl (.inl ha)
        simp only [if_pos hl, reports, hfate, settled_of_not_resumes h]
        rfl
      · rw [if_neg hl, ← hrefusal]
        exact reportDrop_fate h (fate_of_drop hroom fun hc => hl hc.1)
  · have hrefusal : l.refusal = "closed" := if_neg ha
    simp only [deliverHere, offer_of_closed e ha]
    rw [← hrefusal]
    refine reportDrop_fate h (fate_of_drop (fun hc => ha hc.1) ?_)
    rintro ⟨hl, ha' | hs⟩
    · exact ha ha'
    · rcases hgap hl with hs' | ha'
      · exact hs hs'
      · exact ha ha'

/-- The lane with the marker of its gap queued. -/
def resumed (l : Lane) (j : Journal) : Lane :=
  { l with queue := l.queue ++ l.opening j, skipped := 0 }

theorem not_resumes_resumed (l : Lane) (j : Journal) : ¬ (l.resumed j).Resumes :=
  fun h => h.2.1 rfl

/-- The event has the room that is left behind the marker. -/
theorem hasRoom_resumed (h : l.Resumes) (j : Journal) : (l.resumed j).HasRoom ↔ l.HasRoom :=
  (hasRoom_of_not_resumes (l := l.resumed j) h.1 (not_resumes_resumed l j)).trans
    (hasRoom_iff h.1 j).symm

theorem fate_resumed (h : l.Resumes) (e : Event) (j : Journal) :
    (l.resumed j).fate e = l.fate e := by
  have ha : (l.resumed j).state = .attended := h.1
  by_cases hr : l.HasRoom
  · rw [fate_of_room h.1 hr, fate_of_room ha ((hasRoom_resumed h j).mpr hr)]
  · have hroom : ¬ ((l.resumed j).state = .attended ∧ (l.resumed j).HasRoom) :=
      fun hc => hr ((hasRoom_resumed h j).mp hc.2)
    have hrefusal : (l.resumed j).refusal = l.refusal := rfl
    by_cases hl : e.notice.isLine = true
    · rw [fate_of_line (fun hc => hr hc.2) hl (.inl h.1), fate_of_line hroom hl (.inl ha)]
    · rw [fate_of_drop (fun hc => hr hc.2) fun hc => hl hc.1,
        fate_of_drop hroom fun hc => hl hc.1, hrefusal]

theorem settled_resumed (h : l.Resumes) (e : Event) (j j' : Journal) (f : Fate) :
    (l.resumed j).settled e j' f = l.settled e j f := by
  have hmissing : l.missing = 0 := if_pos h
  rw [settled_of_not_resumes (not_resumes_resumed l j)]
  cases f with
  | queued => simp only [settled, resumed, hmissing]
  | counted => simp only [settled, resumed, hmissing]
  | reported reason => simp only [settled, resumed, hmissing]
  | silenced => simp only [settled, resumed, hmissing]

/-- A line that meets a gap whose marker does not fit joins it, and any other
    event is tried. -/
theorem refused_fate (h : ¬ l.Resumes) (hs : l.skipped ≠ 0) :
    (if e.notice.isLine then ({ l with skipped := l.skipped + 1 }, j) else l.deliverHere e j)
      = (l.settled e j (l.fate e), j.publishAll (l.reports e)) := by
  by_cases hl : e.notice.isLine = true
  · have hroom : ¬ (l.state = .attended ∧ l.HasRoom) :=
      fun hc => h ⟨hc.1, hs, (hasRoom_of_not_resumes hc.1 h).mp hc.2⟩
    have hfate : l.fate e = .counted := fate_of_line hroom hl (.inr hs)
    rw [if_pos hl, reports, hfate, settled_of_not_resumes h]
    rfl
  · rw [if_neg hl]
    exact deliverHere_fate h fun hc => absurd hc hl

/-- What a delivery comes to, in a lane of any state. -/
theorem deliver_fate (l : Lane) (e : Event) (j : Journal) :
    l.deliver e j = (l.settled e j (l.fate e),
      ({ j with next := j.next + l.tries } : Journal).publishAll (l.reports e)) := by
  by_cases hs : l.skipped = 0
  · have hnot : ¬ l.Resumes := fun h => h.2.1 hs
    have htries : l.tries = 0 := if_pos hs
    rw [deliver_of_no_gap l e j hs, htries, Nat.add_zero]
    exact deliverHere_fate hnot fun _ => .inl hs
  · have htries : l.tries = 1 := if_neg hs
    rw [htries, deliver, if_neg hs]
    dsimp only [Journal.make]
    by_cases hresumes : l.Resumes
    · -- The marker is queued, and the event is delivered behind it.
      have hresumed : l.resumed j = { l with
          queue := l.queue ++ [⟨j.next, .outputSkipped l.subscriber.name l.skipped⟩]
          skipped := 0 } := by
        rw [resumed, opening, if_pos hresumes]
      rw [offer_of_room l _ hresumes.1 hresumes.2.2]
      dsimp only
      rw [← hresumed, deliverHere_fate (not_resumes_resumed l j) fun _ => .inl rfl,
        fate_resumed hresumes, settled_resumed hresumes, reports, reports, fate_resumed hresumes]
      rfl
    · have hsettled := settled_of_not_resumes hresumes e
      have hrefused := refused_fate (e := e) (j := { j with next := j.next + 1 }) hresumes hs
      rw [hsettled] at hrefused ⊢
      by_cases ha : l.state = .attended
      · rw [offer_of_no_room l _ ha fun hr => hresumes ⟨ha, hs, hr⟩]
        exact hrefused
      · rw [offer_of_closed _ ha]
        exact hrefused

end Lane

/-- An event that is delivered to a lane, with things as they are when its turn
    comes. -/
structure Delivery where
  /-- The place of the lane among the others. -/
  index : Nat
  event : Event
  lane : Lane
  journal : Journal

namespace Delivery

variable {x : Delivery} {f g : Fate}

/-- What is left of the lane and the journal. -/
def outcome (x : Delivery) : Lane × Journal :=
  x.lane.deliver x.event x.journal

/-- What becomes of the event. -/
def fate (x : Delivery) : Fate :=
  x.lane.fate x.event

/-- What the delivery places in the queue. -/
def placed (x : Delivery) : List Event :=
  x.outcome.1.queue.drop x.lane.queue.length

/-- The lane cannot take the event, for a reason. -/
def Refused (x : Delivery) (reason : String) : Prop :=
  reason = "full" ∧ x.lane.state = .attended ∧ x.lane.capacity ≤ x.outcome.1.queue.length ∨
    reason = "closed" ∧ x.lane.state ≠ .attended

/-- The event has met a fate, by what is left of the lane and the bus. The
    marker of a gap may have been queued before it in any case. -/
def Meets (x : Delivery) : Fate → Prop
  | .queued =>
    x.outcome.1 = { x.lane with
      queue := x.lane.queue ++ x.lane.opening x.journal ++ [x.event]
      skipped := x.lane.missing } ∧
    x.outcome.2.bus = x.journal.bus
  | .counted =>
    x.event.notice.isLine = true ∧
    x.outcome.1 = { x.lane with
      queue := x.lane.queue ++ x.lane.opening x.journal
      skipped := x.lane.missing + 1 } ∧
    x.outcome.2.bus = x.journal.bus
  | .reported reason =>
    x.event.notice.isOverflow = false ∧ x.Refused reason ∧
    x.outcome.1 = { x.lane with
      queue := x.lane.queue ++ x.lane.opening x.journal
      skipped := x.lane.missing } ∧
    ∃ number, x.outcome.2.bus
      = x.journal.bus.publish ⟨number, .overflow x.lane.subscriber.name reason⟩
  | .silenced =>
    x.event.notice.isOverflow = true ∧ (∃ reason, x.Refused reason) ∧
    x.outcome.1 = { x.lane with
      queue := x.lane.queue ++ x.lane.opening x.journal
      skipped := x.lane.missing } ∧
    x.outcome.2.bus = x.journal.bus

/-- What a delivery makes of its lane can be read off the fate. -/
theorem outcome_lane (x : Delivery) :
    x.outcome.1 = x.lane.settled x.event x.journal x.fate := by
  rw [outcome, Lane.deliver_fate]
  rfl

/-- A delivery changes the queue and the count of what was skipped, and nothing
    else in the lane. -/
theorem outcome_eq (x : Delivery) : x.outcome.1
    = { x.lane with queue := x.lane.queue ++ x.placed, skipped := x.outcome.1.skipped } := by
  rcases x.lane.settled_eq x.event x.journal x.fate with ⟨entries, skipped, heq⟩
  rw [placed, outcome_lane, heq, List.drop_left]

/-- A delivery draws a number for each marker that it tries, and publishes its
    reports. -/
theorem outcome_journal (x : Delivery) :
    x.outcome.2 = ({ x.journal with next := x.journal.next + x.lane.tries } : Journal).publishAll
      (x.lane.reports x.event) := by
  rw [outcome, Lane.deliver_fate]

/-- Unless the event is reported as dropped the bus is what it was. -/
theorem outcome_bus (h : ∀ reason, x.fate ≠ .reported reason) :
    x.outcome.2.bus = x.journal.bus := by
  have hreports : x.lane.reports x.event = [] := by
    unfold Lane.reports
    split
    next reason hfate => exact absurd hfate (h reason)
    next => rfl
  rw [outcome_journal, hreports]
  rfl

/-- The queue does not grow by the event unless it is queued. -/
theorem fate_eq_queued (h : x.outcome.1.queue
    = x.lane.queue ++ x.lane.opening x.journal ++ [x.event]) : x.fate = .queued := by
  by_contra hfate
  rw [outcome_lane, Lane.settled_queue hfate, List.self_eq_append_right] at h
  exact absurd h (List.cons_ne_nil _ _)

/-- Nor does the count, unless it is counted. -/
theorem fate_eq_counted (h : x.outcome.1.skipped = x.lane.missing + 1) : x.fate = .counted := by
  by_contra hfate
  rw [outcome_lane, Lane.settled_skipped hfate] at h
  exact absurd h (Nat.ne_of_lt (Nat.lt_succ_self _))

/-- An event that is neither queued nor counted is dropped, and reported unless
    it is a report. -/
theorem fate_of_dropped (h : x.outcome.1 = { x.lane with
      queue := x.lane.queue ++ x.lane.opening x.journal
      skipped := x.lane.missing }) :
    x.fate = if x.event.notice.isOverflow then .silenced else .reported x.lane.refusal := by
  have hqueued : x.fate ≠ .queued := fun hfate => by
    rw [outcome_lane, hfate] at h
    have hqueue := congrArg Lane.queue h
    rw [Lane.settled, List.append_right_eq_self] at hqueue
    exact absurd hqueue (List.cons_ne_nil _ _)
  have hcounted : x.fate ≠ .counted := fun hfate => by
    rw [outcome_lane, hfate] at h
    exact absurd (congrArg Lane.skipped h) (Nat.succ_ne_self _)
  refine Lane.fate_of_drop (fun hroom => hqueued ?_) fun hline => ?_
  · exact Lane.fate_of_room hroom.1 hroom.2 x.event
  · by_cases hroom : x.lane.state = .attended ∧ x.lane.HasRoom
    · exact hqueued (Lane.fate_of_room hroom.1 hroom.2 x.event)
    · exact hcounted (Lane.fate_of_line hroom hline.1 hline.2)

theorem reason_of_refused {reason : String} (h : x.Refused reason) : reason = x.lane.refusal := by
  rcases h with ⟨hreason, ha, _⟩ | ⟨hreason, ha⟩
  · rw [hreason, Lane.refusal, if_pos ha]
  · rw [hreason, Lane.refusal, if_neg ha]

/-- What is dropped is dropped because the queue is full, or else closed. -/
theorem refused (hqueued : x.fate ≠ .queued) : x.Refused x.lane.refusal := by
  by_cases ha : x.lane.state = .attended
  · refine .inl ⟨if_pos ha, ha, ?_⟩
    rw [outcome_lane, Lane.settled_queue hqueued]
    exact Nat.le_of_not_lt fun hroom => hqueued
      (Lane.fate_of_room ha ((Lane.hasRoom_iff ha x.journal).mpr hroom) x.event)
  · exact .inr ⟨if_neg ha, ha⟩

/-- Every delivery meets the fate that was worked out for it beforehand. -/
theorem meets_fate (x : Delivery) : x.Meets x.fate := by
  have hlane := x.outcome_lane
  have hkind : x.fate.Suits x.lane x.event := x.lane.suits_fate x.event
  have hbus : (∀ reason, x.fate ≠ .reported reason) → x.outcome.2.bus = x.journal.bus :=
    outcome_bus
  have hrefused : x.fate ≠ .queued → x.Refused x.lane.refusal := refused
  have hreports : x.lane.reports x.event = match x.fate with
    | .reported reason => [.overflow x.lane.subscriber.name reason]
    | _ => [] := rfl
  revert hlane hkind hbus hrefused hreports
  cases x.fate with
  | queued => exact fun hlane _ hbus _ _ => ⟨hlane, hbus fun _ => Fate.noConfusion⟩
  | counted =>
      exact fun hlane hkind hbus _ _ => ⟨hkind, hlane, hbus fun _ => Fate.noConfusion⟩
  | reported reason =>
      rintro hlane ⟨ho, rfl⟩ _ hrefused hreports
      refine ⟨ho, hrefused Fate.noConfusion, hlane, ?_⟩
      rw [outcome_journal, hreports]
      exact ⟨_, rfl⟩
  | silenced =>
      exact fun hlane hkind hbus hrefused _ =>
        ⟨hkind, ⟨_, hrefused Fate.noConfusion⟩, hlane, hbus fun _ => Fate.noConfusion⟩

/-- Nothing is placed in the queue of a lane that is closed. -/
theorem placed_of_closed (hc : x.lane.state ≠ .attended) : x.placed = [] := by
  have hqueued : x.fate ≠ .queued := fun h => hc (Lane.room_of_queued h).1
  have hopening : x.lane.opening x.journal = [] := if_neg fun h => hc h.1
  rw [placed, outcome_lane, Lane.settled_queue hqueued, hopening, List.append_nil,
    List.drop_length]

/-- Each delivery meets one fate, and no other. -/
theorem meets_iff (x : Delivery) (f : Fate) : x.Meets f ↔ f = x.fate := by
  constructor
  · intro h
    cases f with
    | queued => exact (fate_eq_queued (congrArg Lane.queue h.1)).symm
    | counted => exact (fate_eq_counted (congrArg Lane.skipped h.2.1)).symm
    | reported reason =>
        rcases h with ⟨hnot, hrefused, hlane, _⟩
        rw [fate_of_dropped hlane, hnot, reason_of_refused hrefused]
        rfl
    | silenced =>
        rcases h with ⟨ho, _, hlane, _⟩
        rw [fate_of_dropped hlane, ho]
        rfl
  · rintro rfl
    exact meets_fate x

/-- A line that comes to an open lane is queued or counted. -/
theorem not_reported (hl : x.event.notice.isLine = true) (ha : x.lane.state = .attended) :
    x.fate = .queued ∨ x.fate = .counted := by
  by_cases hr : x.lane.HasRoom
  · exact .inl (Lane.fate_of_room ha hr x.event)
  · exact .inr (Lane.fate_of_line (fun hc => hr hc.2) hl (.inl ha))

end Delivery

end SoftPlc
