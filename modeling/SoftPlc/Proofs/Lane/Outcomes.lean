import SoftPlc.Lane

/-!
# What becomes of an event

An event that is delivered as it is has one of three fates. It is queued, or it
is a line and left out, or it is dropped and that is reported. A pending gap
only adds that a marker is made first, which is queued or was made in vain.
Unlike `Lane.placements` this is said of any lane, also one that is closed or
without a worker, and it says what becomes of the journal as well.

Whatever happens to a lane, it holds nothing that its subscriber would not be
given: `Lane.Apt`. A filter is asked when an event is delivered and not when it
is handed over, so this is what makes it known there.

## Main definitions

* `Subscriber.takes`: The kinds of events that a subscriber is given.
* `Lane.Settles`: The fates of an event that is delivered as it is.
* `Lane.Apt`: A lane holds only what its subscriber is given.

## Theorems

* `Lane.deliver_cases`: What becomes of an event that is delivered.
* `Lane.Apt.deliver`, `Lane.Apt.take`, `Lane.Apt.handle`: Nothing else is ever
  held.
* `apt_emit`: Nor by any of the lanes.
-/

namespace SoftPlc

/-- The subscriber is given events of this kind. -/
def Subscriber.takes (s : Subscriber) (k : EventKind) : Bool :=
  ({ subscriber := s } : Lane).accepts k

namespace Lane

variable {l : Lane} {e : Event} {j : Journal}

/-- What becomes of an event that is delivered as it is. -/
inductive Settles (l : Lane) (e : Event) (j : Journal) : Lane × Journal → Prop where
  | placed : Settles l e j ({ l with queue := l.queue ++ [e] }, j)
  | skipped (isLine : e.notice.isLine = true) :
      Settles l e j ({ l with skipped := l.skipped + 1 }, j)
  | dropped (reason : String) : Settles l e j (l, l.reportDrop e reason j)

theorem offer_placed {l' : Lane} (h : l.offer e = .placed l') :
    l' = { l with queue := l.queue ++ [e] } := by
  unfold offer at h
  split at h
  next =>
    split at h
    next => exact (Offer.placed.inj h).symm
    next => exact absurd h Offer.noConfusion
  next => exact absurd h Offer.noConfusion

theorem settles_deliverHere (l : Lane) (e : Event) (j : Journal) :
    l.Settles e j (l.deliverHere e j) := by
  unfold deliverHere
  split
  next hplaced =>
    rw [offer_placed hplaced]
    exact .placed
  next =>
    split
    next hline => exact .skipped hline
    next => exact .dropped "full"
  next => exact .dropped "closed"

/-- What becomes of an event that is delivered. A marker may go before it, or
    be made in vain. -/
theorem deliver_cases (l : Lane) (e : Event) (j : Journal) :
    l.Settles e j (l.deliver e j) ∨
    l.skipped ≠ 0 ∧ l.Settles e { j with next := j.next + 1 } (l.deliver e j) ∨
    l.skipped ≠ 0 ∧ ∃ marker : Event, marker.kind = .compileOutputSkipped ∧
      { l with queue := l.queue ++ [marker], skipped := 0 : Lane }.Settles e
        { j with next := j.next + 1 } (l.deliver e j) := by
  unfold deliver
  split
  next => exact .inl (settles_deliverHere l e j)
  next hskipped =>
    refine .inr ?_
    dsimp only [Journal.make]
    split
    next hplaced =>
      rw [offer_placed hplaced]
      exact .inr ⟨hskipped, _, rfl, settles_deliverHere _ e _⟩
    next =>
      split
      next hline => exact .inl ⟨hskipped, .skipped hline⟩
      next => exact .inl ⟨hskipped, settles_deliverHere l e _⟩

/-- The lane holds only what its subscriber is given. -/
structure Apt (l : Lane) : Prop where
  queue : ∀ e ∈ l.queue, l.subscriber.takes e.kind = true
  inHand : ∀ e, l.inHand = some e → l.subscriber.takes e.kind = true
  gap : l.skipped ≠ 0 → l.subscriber.takes .compileOutputSkipped = true

/-- However a delivery ends, only what the subscriber takes is on its queue. -/
theorem Apt.settles (h : l.Apt) {r : Lane × Journal} (hr : l.Settles e j r)
    (he : l.subscriber.takes e.kind = true) : r.1.subscriber = l.subscriber ∧ r.1.Apt := by
  cases hr with
  | placed =>
      refine ⟨rfl, fun entry hmem => ?_, h.inHand, h.gap⟩
      rcases List.mem_append.mp hmem with hold | hnew
      · exact h.queue entry hold
      · rw [List.mem_singleton.mp hnew]
        exact he
  | skipped hline =>
      -- Whoever is given lines is given the markers for them.
      have hkind : e.kind = .compileOutput := eq_of_beq hline
      refine ⟨rfl, h.queue, h.inHand, fun _ => ?_⟩
      rw [hkind] at he
      exact he
  | dropped reason => exact ⟨rfl, h⟩

/-- A marker is on a queue only because lines were skipped, so its subscriber
    takes lines. -/
theorem Apt.marked (h : l.Apt) {marker : Event} (hmarker : marker.kind = .compileOutputSkipped)
    (hskipped : l.skipped ≠ 0) :
    { l with queue := l.queue ++ [marker], skipped := 0 : Lane }.Apt := by
  refine ⟨fun entry hmem => ?_, h.inHand, fun hgap => absurd rfl hgap⟩
  rcases List.mem_append.mp hmem with hold | hnew
  · exact h.queue entry hold
  · rw [List.mem_singleton.mp hnew, hmarker]
    exact h.gap hskipped

/-- Taking an event in hand keeps a lane apt. -/
theorem Apt.take (h : l.Apt) : l.take.subscriber = l.subscriber ∧ l.take.Apt := by
  unfold Lane.take
  split
  next e rest _ hqueue =>
    have hall := h.queue
    rw [hqueue] at hall
    refine ⟨rfl, fun entry hmem => hall entry (List.mem_cons_of_mem e hmem),
      fun entry hentry => ?_, h.gap⟩
    rw [← Option.some.inj hentry]
    exact hall e List.mem_cons_self
  next => exact ⟨rfl, h⟩

/-- So does handing it over. -/
theorem Apt.handle (h : l.Apt) (j : Journal) :
    (l.handle j).1.subscriber = l.subscriber ∧ (l.handle j).1.Apt := by
  have hfree : Apt { l with inHand := none } :=
    ⟨h.queue, fun _ hnone => absurd hnone.symm (Option.some_ne_none _), h.gap⟩
  unfold Lane.handle
  split
  next => exact ⟨rfl, h⟩
  next =>
    dsimp only
    split
    next => exact ⟨rfl, hfree⟩
    next => exact ⟨rfl, hfree⟩

/-- So does delivering one, if the subscriber takes its kind. -/
theorem Apt.deliver (h : l.Apt) (j : Journal) (he : l.subscriber.takes e.kind = true) :
    (l.deliver e j).1.subscriber = l.subscriber ∧ (l.deliver e j).1.Apt := by
  rcases deliver_cases l e j with hr | ⟨_, hr⟩ | ⟨hskipped, marker, hmarker, hr⟩
  · exact h.settles hr he
  · exact h.settles hr he
  · exact (h.marked hmarker hskipped).settles hr he

end Lane

/-- An emission leaves each subscriber its lane, and with what it is given. -/
theorem apt_emit {ls : List Lane} (e : Event) (j : Journal) (h : ∀ l ∈ ls, l.Apt) :
    (emit ls e j).1.map Lane.subscriber = ls.map Lane.subscriber ∧
      ∀ l ∈ (emit ls e j).1, l.Apt := by
  induction ls generalizing j with
  | nil => exact ⟨rfl, h⟩
  | cons first rest ih =>
      have hfirst := h first List.mem_cons_self
      have hdeliver : (if first.accepts e.kind then first.deliver e j else (first, j)).1.subscriber
            = first.subscriber ∧
          (if first.accepts e.kind then first.deliver e j else (first, j)).1.Apt := by
        split
        next haccepts => exact hfirst.deliver j haccepts
        next => exact ⟨rfl, hfirst⟩
      rcases ih (if first.accepts e.kind then first.deliver e j else (first, j)).2
        (fun l hmem => h l (List.mem_cons_of_mem _ hmem)) with ⟨hstaff, hrest⟩
      rw [emit]
      dsimp only
      refine ⟨?_, fun l hmem => ?_⟩
      · rw [List.map_cons, List.map_cons, hdeliver.1, hstaff]
      · rcases List.mem_cons.mp hmem with rfl | hmem
        · exact hdeliver.2
        · exact hrest l hmem

end SoftPlc
