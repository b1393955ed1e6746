import SoftPlc.Proofs.Bus.Growth
import SoftPlc.Proofs.Lane.Gaps

/-!
# Receipts

What one receipt comes to, for a listener that stands at a position of an open
bus in front of attended lanes. Inside the window it is handed the entry that
it stands at and moves on by one. Behind the window it is taken to the oldest
entry. Without anything ahead it waits, or has ended.

A lag is where forwarding and draining part. One that forwards continues
behind it; one that drains takes it for the end.

Nothing else moves the listener. Publishing and the workers let the log grow,
and the end that is noticed changes the phase only.

## Main definitions

* `Listener.Standing`: Where the listener stands.

## Theorems

* `Listener.receive_of_event`, `receive_of_lag`, `receive_of_empty`,
  `receive_of_end`: What is done about what is received.
* `Standing.receive_event`, `receive_lag`, `receive_end`: What a receipt comes
  to.
* `Standing.step`: What anything else comes to.
-/

namespace SoftPlc

namespace Lane

theorem attended_deliver {l : Lane} (e : Event) (j : Journal) (ha : l.state = .attended) :
    (l.deliver e j).1.state = .attended := by
  rcases deliver_eq l 0 e j ha with ⟨entries, heq, _⟩
  rw [heq]
  exact ha

theorem state_take (l : Lane) : l.take.state = l.state := by
  rcases take_lane l with ⟨queue, inHand, heq, _⟩
  rw [heq]

theorem state_handle (l : Lane) (j : Journal) : (l.handle j).1.state = l.state := by
  rcases handle_lane l j with ⟨inHand, heq⟩
  rw [heq]

end Lane

/-- An emission leaves the lanes attended. -/
theorem attended_emit {lanes : List Lane} (e : Event) (j : Journal)
    (ha : ∀ l ∈ lanes, l.state = .attended) : ∀ l ∈ (emit lanes e j).1, l.state = .attended := by
  induction lanes generalizing j with
  | nil =>
      intro l hl
      exact absurd hl List.not_mem_nil
  | cons first rest ih =>
      intro l hl
      rw [emit] at hl
      dsimp only at hl
      rcases List.mem_cons.mp hl with rfl | hrest
      · split
        next => exact Lane.attended_deliver e j (ha first List.mem_cons_self)
        next => exact ha first List.mem_cons_self
      · exact ih _ (fun l hmem => ha l (List.mem_cons_of_mem first hmem)) l hrest

namespace Listener

variable {l : Listener} {j : Journal} {bus : Bus}

/-- An event that is received is handed to the lanes. -/
theorem receive_of_event {e : Event} (h : l.phase ≠ .ended)
    (hgot : j.bus.receive l.receiver = (.event e, bus)) :
    receive (l, j) = some (l.deliver e { j with bus }) := by
  unfold receive
  cases hphase : l.phase with
  | forwarding => simp only [forward, hphase, hgot, if_true]
  | draining => simp only [drain, hphase, hgot, if_true]
  | ended => exact absurd hphase h

/-- A lag costs a listener that forwards nothing else. -/
theorem receive_of_lag {n : Nat} (h : l.phase = .forwarding)
    (hgot : j.bus.receive l.receiver = (.lagged n, bus)) :
    receive (l, j) = some (l, { j with bus }) := by
  simp only [receive, h, forward, hgot, if_true]

/-- Where nothing is on the bus the listener does not move. It is not an action
    of it to find nothing. -/
theorem receive_of_empty (h : l.phase = .forwarding)
    (hgot : j.bus.receive l.receiver = (.empty, bus)) : receive (l, j) = none := by
  simp only [receive, h, forward, hgot, if_true]

/-- Anything but an event ends the draining, a lag no less than the end of
    what is there. -/
theorem receive_of_end {got : Received} (h : l.phase = .draining)
    (hgot : j.bus.receive l.receiver = (got, bus)) (hend : ∀ e, got ≠ .event e) :
    receive (l, j) = some ({ l with phase := .ended, lanes := l.lanes.map Lane.close },
      { j with bus := bus.unsubscribe l.receiver }) := by
  cases got with
  | event e => exact absurd rfl (hend e)
  | lagged n => simp only [receive, h, drain, hgot, if_true]
  | empty => simp only [receive, h, drain, hgot, if_true]
  | closed => simp only [receive, h, drain, hgot, if_true]

end Listener

namespace Listener

/-- The listener has not ended, its lanes are attended, and its receiver is at
    a position of a bus that is open. -/
structure Standing (now : WithJournal) (position : Nat) : Prop where
  live : now.1.phase ≠ .ended
  lanes : ∀ l ∈ now.1.lanes, l.state = .attended
  receiver : now.1.receiver = 0
  stands : now.2.bus.receivers[0]? = some (some position)
  opened : now.2.bus.closed = false
  capacity : 0 < now.2.bus.capacity

variable {now : WithJournal} {position : Nat}

/-- What lanes and workers do to the bus does not move the listener. -/
theorem Standing.grow (h : Standing now position) {lanes : List Lane} {j : Journal}
    (ha : ∀ l ∈ lanes, l.state = .attended) (hgrows : now.2.bus.Grows j.bus) :
    Standing ({ now.1 with lanes }, j) position where
  live := h.live
  lanes := ha
  receiver := h.receiver
  stands := by rw [hgrows.receivers]; exact h.stands
  opened := by rw [hgrows.closed]; exact h.opened
  capacity := by rw [hgrows.capacity]; exact h.capacity

/-- The position of the listener moves, and the log is as it was. -/
theorem Standing.move (h : Standing now position) (next : Nat) :
    Standing (now.1, { now.2 with
      bus := { now.2.bus with receivers := now.2.bus.receivers.set 0 (some next) } }) next where
  live := h.live
  lanes := h.lanes
  receiver := h.receiver
  stands := by
    have hlt : 0 < now.2.bus.receivers.length := (List.getElem?_eq_some_iff.mp h.stands).1
    rw [List.getElem?_set_self hlt]
  opened := h.opened
  capacity := h.capacity

/-- The listener's position is that of its receiver on the bus. -/
theorem Standing.at_receiver (h : Standing now position) :
    now.2.bus.receivers[now.1.receiver]? = some (some position) := by
  rw [h.receiver]
  exact h.stands

theorem attended_set {lanes : List Lane} (ha : ∀ l ∈ lanes, l.state = .attended) (i : Nat)
    {lane : Lane} (hl : lane.state = .attended) : ∀ l ∈ lanes.set i lane, l.state = .attended := by
  intro l hmem
  rcases List.mem_or_eq_of_mem_set hmem with hold | rfl
  · exact ha l hold
  · exact hl

/-- Without a receipt the listener stays where it stands. -/
theorem Standing.step (h : Standing now position) {a : DeliveryAction} (ha : a ≠ .receive)
    {now' : WithJournal} (hstep : Listener.step now a = some now') :
    Standing now' position ∧ now.2.bus.Grows now'.2.bus := by
  cases a with
  | receive => exact absurd rfl ha
  | publish notice =>
      cases hstep
      have hgrows := Bus.grows_publish now.2.bus ⟨now.2.next, notice⟩
      exact ⟨h.grow (j := now.2.publish notice) h.lanes hgrows, hgrows⟩
  | stop =>
      rw [Listener.step] at hstep
      split at hstep
      next hf =>
        cases hstep
        rw [stop, if_pos hf]
        exact ⟨⟨by simp, h.lanes, h.receiver, h.stands, h.opened, h.capacity⟩, .refl _⟩
      next => exact absurd hstep (by simp only [reduceCtorEq, not_false_eq_true])
  | take i =>
      rcases Option.bind_eq_some_iff.mp hstep with ⟨lane, hlane, hif⟩
      have hattended := h.lanes lane (List.mem_of_getElem? hlane)
      split at hif
      next =>
        cases hif
        have hgrows := Bus.Grows.refl now.2.bus
        exact ⟨h.grow (attended_set h.lanes i ((lane.state_take).trans hattended)) hgrows, hgrows⟩
      next => exact absurd hif (by simp only [reduceCtorEq, not_false_eq_true])
  | handle i =>
      rcases Option.bind_eq_some_iff.mp hstep with ⟨lane, hlane, hif⟩
      have hattended := h.lanes lane (List.mem_of_getElem? hlane)
      split at hif
      next =>
        cases hif
        have hgrows := Bus.grows_handle lane now.2
        exact ⟨h.grow (attended_set h.lanes i ((lane.state_handle _).trans hattended)) hgrows,
          hgrows⟩
      next => exact absurd hif (by simp only [reduceCtorEq, not_false_eq_true])

/-- An entry that is still there is handed to the lanes. -/
theorem Standing.receive_event (h : Standing now position) (hin : ¬ position < now.2.bus.oldest)
    (hsize : position < now.2.bus.log.size) :
    ∃ now', receive now = some now' ∧ Standing now' (position + 1) ∧
      now.2.bus.log.toList <+: now'.2.bus.log.toList ∧
      now'.2.bus.capacity = now.2.bus.capacity := by
  have hgot := Bus.receive_event h.at_receiver hin hsize
  refine ⟨_, receive_of_event h.live hgot, ?_⟩
  rw [h.receiver]
  have hgrows := Bus.grows_emit now.1.lanes now.2.bus.log[position] { now.2 with
    bus := { now.2.bus with receivers := now.2.bus.receivers.set 0 (some (position + 1)) } }
  exact ⟨(h.move (position + 1)).grow (attended_emit _ _ h.lanes) hgrows, hgrows.log,
    hgrows.capacity⟩

/-- A listener that forwards continues behind a lag. -/
theorem Standing.receive_lag (h : Standing now position) (hf : now.1.phase = .forwarding)
    (hlag : position < now.2.bus.oldest) :
    ∃ now', receive now = some now' ∧ Standing now' now.2.bus.oldest ∧
      now'.2.bus.log = now.2.bus.log ∧ now'.2.bus.capacity = now.2.bus.capacity := by
  have hgot := Bus.receive_lagged h.at_receiver hlag
  refine ⟨_, receive_of_lag hf hgot, ?_⟩
  rw [h.receiver]
  exact ⟨h.move now.2.bus.oldest, rfl, rfl⟩

/-- One that drains has ended at it, as it has when there is nothing more. -/
theorem Standing.receive_end (h : Standing now position) (hd : now.1.phase = .draining)
    (hnone : position < now.2.bus.oldest ∨ now.2.bus.log.size ≤ position) :
    ∃ now', receive now = some now' ∧ now'.1.phase = .ended ∧
      now'.2.bus.log = now.2.bus.log ∧ now'.2.bus.capacity = now.2.bus.capacity := by
  by_cases hlag : position < now.2.bus.oldest
  · have hgot := Bus.receive_lagged h.at_receiver hlag
    exact ⟨_, receive_of_end hd hgot (by simp), rfl, rfl, rfl⟩
  · have hsize : now.2.bus.log.size ≤ position := hnone.resolve_left hlag
    have hgot := Bus.receive_empty h.at_receiver h.opened hlag hsize
    exact ⟨_, receive_of_end hd hgot (by simp), rfl, rfl, rfl⟩

end Listener

end SoftPlc
