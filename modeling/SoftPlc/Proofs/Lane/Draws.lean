import SoftPlc.Proofs.Lane.Workers

/-!
# Which numbers are drawn

Every event draws its number from the counter of the journal, and not every one
is published: the marker of a gap is made for a lane and goes into its queue, or
nowhere if it does not fit. So from one moment to another a journal draws two
kinds of numbers, those of what it records and those of what is made besides.
Both go up, and no number is of both kinds (`Journal.Draws`). That composes, and
holds of everything that happens to lanes: a delivery makes a marker if a gap is
pending, and publishes a report if the event is dropped; handing over publishes
a report of a panic; nothing else draws a number.

## Main definitions

* `Journal.Draws`: The numbers drawn between two moments of a journal.
* `Delivery.marker`: The marker that is queued before an event.
* `Delivery.tried`: The number that is drawn for it.

## Theorems

* `Delivery.placed_eq`: What a delivery places in the queue.
* `draws_emit`: The numbers drawn in an emission.
* `Docket.draws_see`: The numbers drawn in any other turn.
-/

namespace SoftPlc

/-- From one moment of a journal to another, numbers are drawn for what it
    records and for what is made and not published. Both go up and are apart. -/
structure Journal.Draws (j j' : Journal) (made : List Nat) : Prop where
  next_le : j.next ≤ j'.next
  recorded : ∃ new, j'.bus.log.toList = j.bus.log.toList ++ new ∧
    new.Pairwise (fun a b => a.number < b.number) ∧
    ∀ e ∈ new, j.next ≤ e.number ∧ e.number < j'.next ∧ e.number ∉ made
  made_increasing : made.Pairwise (· < ·)
  made_between : ∀ m ∈ made, j.next ≤ m ∧ m < j'.next

namespace Journal

variable {j j' j'' : Journal} {made more : List Nat}

theorem Draws.nothing (j : Journal) : j.Draws j [] :=
  ⟨Nat.le_refl _, ⟨[], (List.append_nil _).symm, .nil, fun _ h => absurd h List.not_mem_nil⟩, .nil,
    fun _ h => absurd h List.not_mem_nil⟩

theorem Draws.trans (h : j.Draws j' made) (h' : j'.Draws j'' more) :
    j.Draws j'' (made ++ more) := by
  rcases h.recorded with ⟨new, hnew, hincreasing, hnumbers⟩
  rcases h'.recorded with ⟨newer, hnewer, hincreasing', hnumbers'⟩
  have hle := h.next_le
  have hle' := h'.next_le
  refine ⟨Nat.le_trans hle hle', ⟨new ++ newer, ?_, ?_, fun e he => ?_⟩, ?_, fun m hm => ?_⟩
  · rw [hnewer, hnew, List.append_assoc]
  · refine List.pairwise_append.mpr ⟨hincreasing, hincreasing', fun a ha b hb => ?_⟩
    exact Nat.lt_of_lt_of_le (hnumbers a ha).2.1 (hnumbers' b hb).1
  · rw [List.mem_append, not_or]
    rcases List.mem_append.mp he with he | he
    · rcases hnumbers e he with ⟨hfrom, hto, hmade⟩
      refine ⟨hfrom, Nat.lt_of_lt_of_le hto hle', hmade, fun hm => ?_⟩
      exact absurd (h'.made_between _ hm).1 (Nat.not_le.mpr hto)
    · rcases hnumbers' e he with ⟨hfrom, hto, hmade⟩
      refine ⟨Nat.le_trans hle hfrom, hto, fun hm => ?_, hmade⟩
      exact absurd (h.made_between _ hm).2 (Nat.not_lt.mpr hfrom)
  · refine List.pairwise_append.mpr ⟨h.made_increasing, h'.made_increasing, fun a ha b hb => ?_⟩
    exact Nat.lt_of_lt_of_le (h.made_between a ha).2 (h'.made_between b hb).1
  · rcases List.mem_append.mp hm with hm | hm
    · exact ⟨(h.made_between m hm).1, Nat.lt_of_lt_of_le (h.made_between m hm).2 hle'⟩
    · exact ⟨Nat.le_trans hle (h'.made_between m hm).1, (h'.made_between m hm).2⟩

/-- A published notice draws the number that comes next. -/
theorem draws_publish (j : Journal) (n : Notice) : j.Draws (j.publish n) [] := by
  refine ⟨Nat.le_succ _, ?_, .nil, fun _ h => absurd h List.not_mem_nil⟩
  dsimp only [publish, Bus.publish]
  split
  next =>
    exact ⟨[], (List.append_nil _).symm, .nil, fun _ h => absurd h List.not_mem_nil⟩
  next =>
    refine ⟨[⟨j.next, n⟩], Array.toList_push, List.pairwise_singleton _ _, fun e he => ?_⟩
    rw [List.mem_singleton.mp he]
    exact ⟨Nat.le_refl _, Nat.lt_succ_self _, List.not_mem_nil⟩

theorem draws_publishAll (j : Journal) (ns : List Notice) : j.Draws (j.publishAll ns) [] := by
  induction ns generalizing j with
  | nil => exact .nothing j
  | cons n rest ih => exact (j.draws_publish n).trans (ih (j.publish n))

/-- An event that is made and not published draws a number all the same. Markers
    are made in this way. -/
theorem draws_make (j : Journal) : j.Draws { j with next := j.next + 1 } [j.next] := by
  refine ⟨Nat.le_succ _, ?_, List.pairwise_singleton _ _, fun m hm => ?_⟩
  · exact ⟨[], (List.append_nil _).symm, .nil, fun _ h => absurd h List.not_mem_nil⟩
  · rw [List.mem_singleton.mp hm]
    exact ⟨Nat.le_refl _, Nat.lt_succ_self _⟩

end Journal

namespace Delivery

variable {x : Delivery}

/-- The marker of a pending gap, as it is made when an event is delivered. -/
def marker (x : Delivery) : Event :=
  ⟨x.journal.next, .outputSkipped x.lane.subscriber.name x.lane.skipped⟩

/-- The number that is drawn for the marker, if a gap is pending. -/
def tried (x : Delivery) : List Nat :=
  if x.lane.skipped = 0 then [] else [x.journal.next]

/-- The marker of a gap is tried whether it finds room or not, and has its
    number then. -/
theorem mem_tried (h : x.lane.Resumes) : x.marker.number ∈ x.tried := by
  rw [tried, if_neg h.2.1]
  exact List.mem_singleton_self _

/-- A delivery places the marker, if there is one and it fits, and then the
    event, if it is queued. -/
theorem placed_eq (x : Delivery) :
    x.placed = (if x.lane.Resumes then [x.marker] else [])
      ++ (if x.fate = .queued then [x.event] else []) := by
  have hopening : x.lane.opening x.journal = if x.lane.Resumes then [x.marker] else [] := rfl
  by_cases hqueued : x.fate = .queued
  · rw [placed, outcome_lane, hqueued, if_pos rfl, ← hopening, Lane.settled, List.append_assoc,
      List.drop_left]
  · rw [placed, outcome_lane, Lane.settled_queue hqueued, if_neg hqueued, ← hopening,
      List.append_nil, List.drop_left]

/-- A delivery places the marker if the lane resumes, and the event if that is
    its fate. -/
theorem mem_placed {e : Event} :
    e ∈ x.placed ↔ x.lane.Resumes ∧ e = x.marker ∨ x.fate = .queued ∧ e = x.event := by
  rw [placed_eq, List.mem_append, List.mem_ite_nil_right, List.mem_ite_nil_right,
    List.mem_singleton, List.mem_singleton]

theorem draws_outcome (x : Delivery) : x.journal.Draws x.outcome.2 x.tried := by
  have htried : x.journal.Draws { x.journal with next := x.journal.next + x.lane.tries }
      x.tried := by
    rw [tried, Lane.tries]
    split
    next => exact .nothing _
    next => exact x.journal.draws_make
  have hall := htried.trans (Journal.draws_publishAll _ (x.lane.reports x.event))
  rw [List.append_nil, ← x.outcome_journal] at hall
  exact hall

end Delivery

/-- The numbers drawn in an emission are those of markers and of reports. -/
theorem draws_emit (place : Nat) (lanes : List Lane) (e : Event) (j : Journal) :
    j.Draws (emit lanes e j).2 ((deliveriesFrom place lanes e j).flatMap Delivery.tried) := by
  induction lanes generalizing place j with
  | nil => exact .nothing j
  | cons l rest ih =>
      rw [emit, deliveriesFrom]
      by_cases haccepts : l.accepts e.kind = true
      · rw [if_pos haccepts, if_pos haccepts, List.flatMap_cons]
        exact (Delivery.draws_outcome ⟨place, e, l, j⟩).trans (ih _ _)
      · rw [if_neg haccepts, if_neg haccepts]
        exact ih _ j

/-- A number that is drawn for a delivery is newer than all before the emission. -/
theorem next_le_of_mem_deliveries {place : Nat} {lanes : List Lane} {e : Event} {j : Journal}
    {x : Delivery} (h : x ∈ deliveriesFrom place lanes e j) : j.next ≤ x.journal.next := by
  induction lanes generalizing place j with
  | nil => exact absurd h List.not_mem_nil
  | cons l rest ih =>
      unfold deliveriesFrom at h
      split at h
      next =>
        rcases List.mem_cons.mp h with rfl | hrest
        · exact Nat.le_refl _
        · exact Nat.le_trans (Delivery.draws_outcome ⟨place, e, l, j⟩).next_le (ih hrest)
      next => exact ih h

/-- An emission delivers to each lane once. -/
theorem deliveriesFrom_apart (place : Nat) (lanes : List Lane) (e : Event) (j : Journal) :
    (deliveriesFrom place lanes e j).Pairwise fun x y => x.index ≠ y.index := by
  induction lanes generalizing place j with
  | nil => exact .nil
  | cons l rest ih =>
      unfold deliveriesFrom
      split
      next =>
        refine .cons (fun y hy => ?_) (ih _ _)
        rcases mem_deliveriesFrom hy with ⟨i, hi, _⟩
        dsimp only
        omega
      next => exact ih _ j

theorem Lane.draws_handle (l : Lane) (j : Journal) : j.Draws (l.handle j).2 [] := by
  unfold Lane.handle
  split
  next => exact .nothing j
  next =>
    dsimp only
    split
    next => exact .nothing j
    next => exact j.draws_publish _

/-- A turn that emits nothing delivers nothing, and draws numbers for what it
    publishes only. -/
theorem Docket.draws_see {d : Docket} {t : LaneTurn} (ht : t.emitted?.isSome = false) :
    (d.see t).deliveries = d.deliveries ∧ d.now.2.Draws (d.see t).now.2 [] := by
  cases t with
  | act action =>
      cases action with
      | emit e => exact absurd ht.symm Bool.false_ne_true
      | take i => exact ⟨List.append_nil _, .nothing _⟩
      | handle i =>
          refine ⟨List.append_nil _, ?_⟩
          dsimp only [Docket.see, LaneTurn.apply, LaneAction.apply]
          cases hi : d.now.1[i]? with
          | none => exact .nothing _
          | some l => exact l.draws_handle _
  | close i => exact ⟨List.append_nil _, .nothing _⟩
  | abandon i => exact ⟨List.append_nil _, .nothing _⟩

end SoftPlc
