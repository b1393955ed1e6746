import Mathlib.Data.List.Flatten
import SoftPlc.Proofs.Lane.Draws

/-!
# What the numbers of events restore

Every event draws its number from one counter, so that a subscriber that is
given events out of order could put them in order again. Events that are
published draw theirs before they are emitted. The marker of a gap does not: it
is made when the next event is delivered, and that event has its number already.
It is queued first all the same, to stand in place of the missing lines, and so
the queue and the numbers disagree about these two.

That is the only disagreement there is. A feed hands on what is published in
order and each at most once, so that events among themselves, and markers among
themselves, are queued in the order of their numbers, and a marker is always
newer than what was queued before it. What is left is a marker and an event
behind it. Sorting restores the order exactly if each event behind a marker was
published after the marker was made (`order_restored_iff`), which is never so
for the event with which it was queued.

## Main definitions

* `FeedTurn`, `Feed`: Lanes to which what is published is handed on in order.
* `Feed.Numbered`: How numbers and deliveries are ordered.
* `sortByNumber`: Events in the order of their numbers.

## Theorems

* `Feed.numbered_after`: How they are ordered along a run.
* `Feed.Numbered.placed_pairwise`: What is so of all entries of a queue.
* `Feed.Numbered.restored_iff`: When sorting restores what was seen.
* `order_restored_iff`: When it restores what a subscriber was handed.
* `order_not_restored`: It does not always.
-/

namespace SoftPlc

/-- Something that happens to lanes that are fed from a bus. -/
inductive FeedTurn where
  /-- An event is made and published. -/
  | publish (n : Notice)
  /-- A number is drawn for something that does not come here. -/
  | draw
  /-- What was published next is emitted. -/
  | emit
  /-- What was published next is passed over. -/
  | pass
  /-- Anything else that happens to the lanes. -/
  | lanes (turn : LaneTurn)
  deriving Repr

/-- Lanes to which what is published is handed on in order. -/
structure Feed where
  docket : Docket
  /-- How many of the entries of the log have had their turn. -/
  position : Nat := 0

namespace Feed

/-- New lanes for some subscribers, and a new bus on which everything is
    recorded. -/
def start (capacity : Nat) (subscribers : List Subscriber) : Feed :=
  { docket := .start (freshLanes subscribers { bus := (Bus.ofCapacity capacity).subscribe.2 }) }

/-- The journal as it is now. -/
def journal (f : Feed) : Journal :=
  f.docket.now.2

/-- What has been published. -/
def log (f : Feed) : List Event :=
  f.journal.bus.log.toList

/-- The lanes and the notes of them stay, and the journal becomes another. -/
def withJournal (f : Feed) (j : Journal) : Feed :=
  { f with docket := { f.docket with now := (f.docket.now.1, j) } }

/-- Something happens. -/
def see (f : Feed) : FeedTurn → Feed
  | .publish n => f.withJournal (f.journal.publish n)
  | .draw => f.withJournal { f.journal with next := f.journal.next + 1 }
  | .emit =>
    match f.log[f.position]? with
    | some e => { docket := f.docket.see (.act (.emit e)), position := f.position + 1 }
    | none => f
  | .pass => if f.position < f.log.length then { f with position := f.position + 1 } else f
  | .lanes t => if t.emitted?.isSome then f else { f with docket := f.docket.see t }

/-- Several things happen in order. -/
def after (f : Feed) (turns : List FeedTurn) : Feed :=
  turns.foldl see f

variable {f f' : Feed} {first : Journal}

/-- How the numbers and the deliveries are ordered. -/
structure Numbered (first : Journal) (f : Feed) : Prop where
  drawn : ∃ made, first.Draws f.journal made ∧
    (f.docket.deliveries.flatMap Delivery.tried).Sublist made
  within : f.position ≤ f.log.length
  emitted : ∀ x ∈ f.docket.deliveries, ∃ i, i < f.position ∧ f.log[i]? = some x.event
  /-- An event has its number before it is delivered. -/
  older : ∀ x ∈ f.docket.deliveries, x.event.number < x.journal.next
  later : f.docket.deliveries.Pairwise fun x y => x.event.number < y.journal.next
  ordered : f.docket.deliveries.Pairwise fun x y =>
    x.index = y.index → x.event.number < y.event.number

/-- If nothing is delivered only the log can grow. -/
theorem Numbered.of_draws (h : Numbered first f) {made : List Nat}
    (hdraws : f.journal.Draws f'.journal made)
    (hdeliveries : f'.docket.deliveries = f.docket.deliveries)
    (hposition : f'.position = f.position) : Numbered first f' := by
  rcases h.drawn with ⟨before, hbefore, hsublist⟩
  rcases hdraws.recorded with ⟨new, hnew, _⟩
  have hlog : f'.log = f.log ++ new := hnew
  refine ⟨⟨before ++ made, hbefore.trans hdraws, ?_⟩, ?_, ?_, ?_, ?_, ?_⟩
  · rw [hdeliveries]
    exact hsublist.trans (List.sublist_append_left _ _)
  · rw [hposition, hlog, List.length_append]
    exact Nat.le_add_right_of_le h.within
  · rw [hdeliveries, hposition, hlog]
    intro x hx
    rcases h.emitted x hx with ⟨i, hi, hevent⟩
    refine ⟨i, hi, ?_⟩
    rw [List.getElem?_append_left (List.getElem?_eq_some_iff.mp hevent).1, hevent]
  · rw [hdeliveries]
    exact h.older
  · rw [hdeliveries]
    exact h.later
  · rw [hdeliveries]
    exact h.ordered

/-- What is recorded is older than what comes next, and goes up. -/
theorem Numbered.log_increasing (h : Numbered first f) (hfirst : first.bus.log = #[]) :
    f.log.Pairwise (fun a b => a.number < b.number) ∧
      ∀ e ∈ f.log, e.number < f.journal.next := by
  rcases h.drawn with ⟨made, hdrawn, _⟩
  rcases hdrawn.recorded with ⟨new, hnew, hincreasing, hnumbers⟩
  have hlog : f.log = new := by
    rw [hfirst] at hnew
    exact hnew
  rw [hlog]
  exact ⟨hincreasing, fun e he => (hnumbers e he).2.1⟩

/-- An emission hands on what was published next, and that is newer than all
    that was handed on before. -/
theorem Numbered.emission (h : Numbered first f) (hfirst : first.bus.log = #[]) {e : Event}
    (he : f.log[f.position]? = some e) :
    Numbered first { docket := f.docket.see (.act (.emit e)), position := f.position + 1 } := by
  rcases h.log_increasing hfirst with ⟨hincreasing, hbelow⟩
  rcases h.drawn with ⟨made, hdrawn, hsublist⟩
  have hdraws := draws_emit 0 f.docket.now.1 e f.docket.now.2
  rcases hdraws.recorded with ⟨new, hnew, _⟩
  rcases List.getElem?_eq_some_iff.mp he with ⟨hlt, hat⟩
  have hgrown : ∀ {i : Nat} {x : Event}, f.log[i]? = some x → (f.log ++ new)[i]? = some x := by
    intro i x hx
    rw [List.getElem?_append_left (List.getElem?_eq_some_iff.mp hx).1, hx]
  have hnumber : e.number < f.journal.next := hbelow e (List.mem_of_getElem? he)
  have hfresh : ∀ y ∈ deliveriesFrom 0 f.docket.now.1 e f.docket.now.2,
      y.event = e ∧ f.journal.next ≤ y.journal.next := by
    intro y hy
    rcases mem_deliveriesFrom hy with ⟨_, _, _, hevent⟩
    exact ⟨hevent, next_le_of_mem_deliveries hy⟩
  -- What was handed on before stands earlier in the log, which increases.
  have hbefore : ∀ x ∈ f.docket.deliveries,
      x.event.number < e.number ∧ x.event.number < f.journal.next := by
    intro x hx
    rcases h.emitted x hx with ⟨i, hi, hevent⟩
    rcases List.getElem?_eq_some_iff.mp hevent with ⟨hilt, hix⟩
    have hpair := List.pairwise_iff_getElem.mp hincreasing i f.position hilt hlt hi
    rw [hix, hat] at hpair
    exact ⟨hpair, hbelow _ (List.mem_of_getElem? hevent)⟩
  refine ⟨⟨_, hdrawn.trans hdraws, ?_⟩, ?_, fun x hx => ?_, fun x hx => ?_, ?_, ?_⟩
  · dsimp only [Docket.see, LaneTurn.deliveries]
    rw [List.flatMap_append]
    exact hsublist.append (List.Sublist.refl _)
  · have hlog : (f.docket.see (.act (.emit e))).now.2.bus.log.toList = f.log ++ new := hnew
    dsimp only [log, journal]
    rw [hlog, List.length_append]
    exact Nat.le_add_right_of_le hlt
  · rcases List.mem_append.mp hx with hx | hx
    · rcases h.emitted x hx with ⟨i, hi, hevent⟩
      exact ⟨i, Nat.lt_succ_of_lt hi, (congrArg (·[i]?) hnew).trans (hgrown hevent)⟩
    · rw [(hfresh x hx).1]
      exact ⟨f.position, Nat.lt_succ_self _, (congrArg (·[f.position]?) hnew).trans (hgrown he)⟩
  · rcases List.mem_append.mp hx with hx | hx
    · exact h.older x hx
    · rw [(hfresh x hx).1]
      exact Nat.lt_of_lt_of_le hnumber (hfresh x hx).2
  · refine List.pairwise_append.mpr ⟨h.later, ?_, fun x hx y hy => ?_⟩
    · refine (deliveriesFrom_apart 0 f.docket.now.1 e f.docket.now.2).imp_of_mem ?_
      intro x y hx hy _
      rw [(hfresh x hx).1]
      exact Nat.lt_of_lt_of_le hnumber (hfresh y hy).2
    · exact Nat.lt_of_lt_of_le (hbefore x hx).2 (hfresh y hy).2
  · refine List.pairwise_append.mpr ⟨h.ordered, ?_, fun x hx y hy _ => ?_⟩
    · refine (deliveriesFrom_apart 0 f.docket.now.1 e f.docket.now.2).imp fun hapart hsame => ?_
      exact absurd hsame hapart
    · rw [(hfresh y hy).1]
      exact (hbefore x hx).1

theorem numbered_start (capacity : Nat) (subscribers : List Subscriber) :
    Numbered (start capacity subscribers).journal (start capacity subscribers) :=
  ⟨⟨[], .nothing _, List.nil_sublist _⟩, Nat.zero_le _, fun _ h => absurd h List.not_mem_nil,
    fun _ h => absurd h List.not_mem_nil, .nil, .nil⟩

/-- Whatever happens, what is recorded and what was placed is numbered in the
    order in which it was made. -/
theorem Numbered.see (h : Numbered first f) (hfirst : first.bus.log = #[]) (t : FeedTurn) :
    Numbered first (f.see t) := by
  cases t with
  | publish n => exact h.of_draws (f.journal.draws_publish n) rfl rfl
  | draw => exact h.of_draws f.journal.draws_make rfl rfl
  | emit =>
      unfold Feed.see
      dsimp only
      split
      next e he => exact h.emission hfirst he
      next => exact h
  | pass =>
      unfold Feed.see
      dsimp only
      split
      next hlt =>
        refine ⟨h.drawn, hlt, fun x hx => ?_, h.older, h.later, h.ordered⟩
        rcases h.emitted x hx with ⟨i, hi, hevent⟩
        exact ⟨i, Nat.lt_succ_of_lt hi, hevent⟩
      next => exact h
  | lanes t =>
      unfold Feed.see
      dsimp only
      split
      next => exact h
      next hquiet =>
        rcases Docket.draws_see (d := f.docket) (Bool.eq_false_iff.mpr hquiet)
          with ⟨hdeliveries, hdraws⟩
        let after : Feed := { f with docket := f.docket.see t }
        have hjournal : f.journal.Draws after.journal [] := hdraws
        exact h.of_draws hjournal hdeliveries rfl

/-- So it is along any run. -/
theorem numbered_after (h : Numbered first f) (hfirst : first.bus.log = #[])
    (turns : List FeedTurn) : Numbered first (f.after turns) := by
  induction turns generalizing f with
  | nil => exact h
  | cons t rest ih => exact ih (h.see hfirst t)

/-- A number that was drawn for a marker is not that of an event. -/
theorem Numbered.marker_apart (h : Numbered first f) (hfirst : first.bus.log = #[])
    {x : Delivery} (hx : x ∈ f.docket.deliveries) (hresumes : x.lane.Resumes) {e : Event}
    (he : e ∈ f.log) : x.marker.number ≠ e.number := by
  rcases h.drawn with ⟨made, hdrawn, hsublist⟩
  rcases hdrawn.recorded with ⟨new, hnew, _, hnumbers⟩
  have hmem : e ∈ new := by
    rw [hfirst] at hnew
    rwa [log, hnew] at he
  have hmade : x.marker.number ∈ made :=
    hsublist.subset (List.mem_flatMap.mpr ⟨x, hx, Delivery.mem_tried hresumes⟩)
  exact fun heq => (hnumbers e hmem).2.2 (heq ▸ hmade)

/-- Markers are made with numbers that go up. -/
theorem Numbered.markers_increasing (h : Numbered first f) {x y : Delivery}
    (hxy : [x, y].Sublist f.docket.deliveries) (hx : x.lane.Resumes) (hy : y.lane.Resumes) :
    x.marker.number < y.marker.number := by
  rcases h.drawn with ⟨made, hdrawn, hsublist⟩
  have hpair := hdrawn.made_increasing.sublist hsublist
  rw [List.pairwise_flatMap] at hpair
  exact List.pairwise_iff_forall_sublist.mp hpair.2 hxy _ (Delivery.mem_tried hx) _
    (Delivery.mem_tried hy)

/-- What was delivered to a lane is what was delivered, in order. -/
theorem deliveredTo_sublist (f : Feed) (k : Nat) :
    (f.docket.deliveredTo k).Sublist f.docket.deliveries :=
  List.filter_sublist

theorem index_of_mem {x : Delivery} {k : Nat} (hx : x ∈ f.docket.deliveredTo k) : x.index = k :=
  beq_iff_eq.mp (List.mem_filter.mp hx).2

/-- A relation that holds whenever numbers go up holds between all entries of a
    queue and those behind them, if it does between a marker and the events
    behind it. -/
theorem Numbered.placed_pairwise (h : Numbered first f) {k : Nat} {R : Event → Event → Prop}
    (hlt : ∀ a b : Event, a.number < b.number → R a b)
    (hown : ∀ x ∈ f.docket.deliveredTo k, x.lane.Resumes → x.fate = .queued → R x.marker x.event)
    (hbehind : ∀ x y, [x, y].Sublist (f.docket.deliveredTo k) → x.lane.Resumes →
      y.fate = .queued → R x.marker y.event) : (f.docket.placedIn k).Pairwise R := by
  rw [Docket.placedIn, List.pairwise_flatMap]
  constructor
  · intro x hx
    rw [x.placed_eq]
    refine List.pairwise_append.mpr ⟨?_, ?_, fun a ha b hb => ?_⟩
    · split
      next => exact List.pairwise_singleton _ _
      next => exact .nil
    · split
      next => exact List.pairwise_singleton _ _
      next => exact .nil
    · rw [List.mem_ite_nil_right, List.mem_singleton] at ha hb
      rw [ha.2, hb.2]
      exact hown x hx ha.1 hb.1
  · refine List.pairwise_iff_forall_sublist.mpr fun {x y} hxy a ha b hb => ?_
    have hall : [x, y].Sublist f.docket.deliveries := hxy.trans (f.deliveredTo_sublist k)
    have hsame : x.index = y.index :=
      (index_of_mem (hxy.subset List.mem_cons_self)).trans
        (index_of_mem (hxy.subset (List.mem_cons_of_mem _ List.mem_cons_self))).symm
    rcases Delivery.mem_placed.mp ha with ⟨hx, rfl⟩ | ⟨_, rfl⟩
    · rcases Delivery.mem_placed.mp hb with ⟨hy, rfl⟩ | ⟨hy, rfl⟩
      · exact hlt _ _ (h.markers_increasing hall hx hy)
      · exact hbehind x y hxy hx hy
    · rcases Delivery.mem_placed.mp hb with ⟨_, rfl⟩ | ⟨_, rfl⟩
      · exact hlt _ _ (List.pairwise_iff_forall_sublist.mp h.later hall)
      · exact hlt _ _ (List.pairwise_iff_forall_sublist.mp h.ordered hall hsame)

/-- What was queued in a lane was made as a marker, or is in the log. -/
theorem Numbered.event_mem_log (h : Numbered first f) {x : Delivery}
    (hx : x ∈ f.docket.deliveries) : x.event ∈ f.log := by
  rcases h.emitted x hx with ⟨i, _, hevent⟩
  exact List.mem_of_getElem? hevent

/-- No number is queued twice in a lane. -/
theorem Numbered.placed_apart (h : Numbered first f) (hfirst : first.bus.log = #[]) (k : Nat) :
    (f.docket.placedIn k).Pairwise fun a b => a.number ≠ b.number := by
  have hmem : ∀ x ∈ f.docket.deliveredTo k, x ∈ f.docket.deliveries :=
    fun x hx => (f.deliveredTo_sublist k).subset hx
  refine h.placed_pairwise (fun _ _ hlt => Nat.ne_of_lt hlt) (fun x hx hresumes _ => ?_)
    fun x y hxy hresumes _ => ?_
  · exact h.marker_apart hfirst (hmem x hx) hresumes (h.event_mem_log (hmem x hx))
  · have hx := hmem x (hxy.subset List.mem_cons_self)
    have hy := hmem y (hxy.subset (List.mem_cons_of_mem _ List.mem_cons_self))
    exact h.marker_apart hfirst hx hresumes (h.event_mem_log hy)

end Feed

/-- Events in the order of their numbers. -/
def sortByNumber (events : List Event) : List Event :=
  events.mergeSort fun a b => a.number ≤ b.number

/-- Sorting changes nothing if the numbers go up already, and otherwise it
    does. -/
theorem sortByNumber_eq_self_iff {events : List Event}
    (hapart : events.Pairwise fun a b => a.number ≠ b.number) :
    sortByNumber events = events ↔ events.Pairwise fun a b => a.number < b.number := by
  constructor
  · intro h
    have htrans : ∀ a b c : Event, decide (a.number ≤ b.number) = true →
        decide (b.number ≤ c.number) = true → decide (a.number ≤ c.number) = true :=
      fun _ _ _ hab hbc =>
        decide_eq_true (Nat.le_trans (of_decide_eq_true hab) (of_decide_eq_true hbc))
    have htotal : ∀ a b : Event,
        (decide (a.number ≤ b.number) || decide (b.number ≤ a.number)) = true := by
      intro a b
      rw [Bool.or_eq_true, decide_eq_true_eq, decide_eq_true_eq]
      exact Nat.le_total a.number b.number
    have hsorted : (sortByNumber events).Pairwise fun a b => decide (a.number ≤ b.number) = true :=
      List.pairwise_mergeSort htrans htotal events
    rw [h] at hsorted
    exact (hsorted.and hapart).imp fun hab =>
      Nat.lt_of_le_of_ne (of_decide_eq_true hab.1) hab.2
  · intro h
    exact List.mergeSort_of_pairwise (h.imp fun hab => decide_eq_true (Nat.le_of_lt hab))

/-- Of a prefix everything is seen that is before something seen. -/
theorem pair_sublist_seen {seen all : List Event} {a b : Event} (hseen : seen <+: all)
    (hapart : all.Pairwise fun a b => a.number ≠ b.number) (hab : [a, b].Sublist all)
    (hb : b ∈ seen) : [a, b].Sublist seen := by
  rcases hseen with ⟨rest, rfl⟩
  have hrest : b ∉ rest := fun hin =>
    absurd rfl ((List.pairwise_append.mp hapart).2.2 b hb b hin)
  rcases List.sublist_append_iff.mp hab with ⟨front, back, heq, hfront, hback⟩
  rcases List.eq_nil_or_concat' back with rfl | ⟨init, last, rfl⟩
  · rw [List.append_nil] at heq
    exact heq ▸ hfront
  · rw [← List.append_assoc] at heq
    have hends : [a] ++ [b] = (front ++ init) ++ [last] := heq
    have hlast := (List.append_inj' hends rfl).2
    rw [List.singleton_inj] at hlast
    exact absurd (hback.subset (List.mem_append_right _ (List.mem_singleton_self _)))
      (hlast ▸ hrest)

namespace Feed

variable {f : Feed} {first : Journal}

/-- Sorting by number restores the order of what a subscriber has seen exactly
    if all events that it has seen behind a marker are newer than the marker. -/
theorem Numbered.restored_iff (h : Numbered first f) (hfirst : first.bus.log = #[]) {k : Nat}
    {seen : List Event} (hseen : seen <+: f.docket.placedIn k) :
    sortByNumber seen = seen ↔
      (∀ x ∈ f.docket.deliveredTo k, x.lane.Resumes → x.fate = .queued → x.event ∉ seen) ∧
      ∀ x y, [x, y].Sublist (f.docket.deliveredTo k) → x.lane.Resumes → y.fate = .queued →
        y.event ∈ seen → x.marker.number < y.event.number := by
  have hapart := h.placed_apart hfirst k
  rw [sortByNumber_eq_self_iff (hapart.sublist hseen.sublist)]
  constructor
  · intro hsorted
    -- Whatever is queued behind a marker is seen behind it.
    have hpair : ∀ {a b : Event}, [a, b].Sublist (f.docket.placedIn k) → b ∈ seen →
        a.number < b.number := fun hab hb =>
      List.pairwise_iff_forall_sublist.mp hsorted (pair_sublist_seen hseen hapart hab hb)
    refine ⟨fun x hx hresumes hqueued hmem => ?_, fun x y hxy hresumes hqueued hmem => ?_⟩
    · have hplaced : [x.marker, x.event].Sublist (f.docket.placedIn k) := by
        have hown : x.placed = [x.marker, x.event] := by
          rw [x.placed_eq, if_pos hresumes, if_pos hqueued]
          rfl
        have hflat := (List.singleton_sublist.mpr hx).flatMap Delivery.placed
        rwa [List.flatMap_singleton, hown] at hflat
      have holder := h.older x ((f.deliveredTo_sublist k).subset hx)
      exact absurd (hpair hplaced hmem) (Nat.not_lt.mpr (Nat.le_of_lt holder))
    · refine hpair ?_ hmem
      have hboth : (x.placed ++ y.placed).Sublist (f.docket.placedIn k) := by
        have hflat := hxy.flatMap Delivery.placed
        rwa [List.flatMap_cons, List.flatMap_singleton] at hflat
      refine List.Sublist.trans ?_ hboth
      exact (List.singleton_sublist.mpr (Delivery.mem_placed.mpr (.inl ⟨hresumes, rfl⟩))).append
        (List.singleton_sublist.mpr (Delivery.mem_placed.mpr (.inr ⟨hqueued, rfl⟩)))
  · rintro ⟨hown, hbehind⟩
    have hplaced : (f.docket.placedIn k).Pairwise fun a b => b ∈ seen → a.number < b.number := by
      refine h.placed_pairwise (fun _ _ hlt _ => hlt) (fun x hx hresumes hqueued hmem => ?_) hbehind
      exact absurd hmem (hown x hx hresumes hqueued)
    exact (hplaced.sublist hseen.sublist).imp_of_mem fun _ hb hab => hab hb

/-- A lane of the feed, with what was placed in it and what its subscriber was
    handed. -/
theorem worked_see (f : Feed) (t : FeedTurn) {k : Nat} {l : Lane}
    (hl : f.docket.now.1[k]? = some l) (h : l.Worked (f.docket.placedIn k) (f.docket.handedTo k)) :
    ∃ l', (f.see t).docket.now.1[k]? = some l' ∧
      l'.Worked ((f.see t).docket.placedIn k) ((f.see t).docket.handedTo k) := by
  have hdocket : ∀ turn, ∃ l', (f.docket.see turn).now.1[k]? = some l' ∧
      l'.Worked ((f.docket.see turn).placedIn k) ((f.docket.see turn).handedTo k) := by
    intro turn
    rcases Docket.worked_after hl h [turn] with ⟨l', hl', _, hworked⟩
    exact ⟨l', hl', hworked⟩
  cases t with
  | publish n => exact ⟨l, hl, h⟩
  | draw => exact ⟨l, hl, h⟩
  | emit =>
      unfold see
      dsimp only
      split
      next => exact hdocket _
      next => exact ⟨l, hl, h⟩
  | pass =>
      unfold see
      dsimp only
      split
      next => exact ⟨l, hl, h⟩
      next => exact ⟨l, hl, h⟩
  | lanes t =>
      unfold see
      dsimp only
      split
      next => exact ⟨l, hl, h⟩
      next => exact hdocket t

/-- The worker of a lane that is fed from a bus works as one that is not. -/
theorem worked_after (f : Feed) (turns : List FeedTurn) {k : Nat} {l : Lane}
    (hl : f.docket.now.1[k]? = some l) (h : l.Worked (f.docket.placedIn k) (f.docket.handedTo k)) :
    ∃ l', (f.after turns).docket.now.1[k]? = some l' ∧
      l'.Worked ((f.after turns).docket.placedIn k) ((f.after turns).docket.handedTo k) := by
  induction turns generalizing f l with
  | nil => exact ⟨l, hl, h⟩
  | cons t rest ih =>
      rcases f.worked_see t hl h with ⟨l', hl', hworked⟩
      exact ih (f.see t) hl' hworked

theorem handed_after (capacity : Nat) {subscribers : List Subscriber} (turns : List FeedTurn)
    {k : Nat} {s : Subscriber} (hs : subscribers[k]? = some s) :
    let f := (start capacity subscribers).after turns
    f.docket.handedTo k <+: f.docket.placedIn k := by
  intro f
  rcases (start capacity subscribers).worked_after turns (freshLanes_place hs _)
    (Lane.worked_fresh s) with ⟨l, _, hworked⟩
  rcases hworked.placed with ⟨lost, hplaced, _⟩
  refine ⟨l.inHand.toList ++ l.queue ++ lost, ?_⟩
  rw [hplaced, List.append_assoc, List.append_assoc, List.append_assoc]

end Feed

/-- Lanes of new subscribers, fed with what is published, in order and each
    event at most once. What a subscriber is handed is what was queued in its
    lane, from the beginning. No two of these events have the same number, and
    the event that is delivered when a marker is queued always has a smaller
    number than the marker, though it is queued behind it. Sorting what the
    subscriber was handed, or anything else that begins like its queue, by
    number leaves it in order exactly if all events in it that are behind a
    marker are newer than the marker: so no event that was queued with a marker
    of its own may be in it, and no later one that is older than the marker. -/
theorem order_restored_iff (capacity : Nat) (subscribers : List Subscriber)
    (turns : List FeedTurn) (k : Nat) :
    let f := (Feed.start capacity subscribers).after turns
    let deliveries := f.docket.deliveredTo k
    let placed := f.docket.placedIn k
    (∀ s, subscribers[k]? = some s → f.docket.handedTo k <+: placed) ∧
    placed.Pairwise (fun a b => a.number ≠ b.number) ∧
    (∀ x ∈ deliveries, x.event.number < x.marker.number) ∧
    ∀ seen, seen <+: placed →
      (sortByNumber seen = seen ↔
        (∀ x ∈ deliveries, x.lane.Resumes → x.fate = .queued → x.event ∉ seen) ∧
        ∀ x y, [x, y].Sublist deliveries → x.lane.Resumes → y.fate = .queued →
          y.event ∈ seen → x.marker.number < y.event.number) := by
  intro f deliveries placed
  have hfirst : (Feed.start capacity subscribers).journal.bus.log = #[] := rfl
  have hnumbered := Feed.numbered_after (Feed.numbered_start capacity subscribers) hfirst turns
  refine ⟨fun _ hs => Feed.handed_after capacity turns hs, hnumbered.placed_apart hfirst k,
    fun x hx => hnumbered.older x ((f.deliveredTo_sublist k).subset hx),
    fun seen hseen => hnumbered.restored_iff hfirst hseen⟩

/-- A queue of two is full when the fourth line comes, and empty when the fifth
    comes, with the marker of a gap before it. -/
def markedLate : List FeedTurn :=
  let line := FeedTurn.publish { kind := .compileOutput }
  let turn := [FeedTurn.lanes (.act (.handle 0)), .lanes (.act (.take 0))]
  [line, .emit, .lanes (.act (.take 0)), line, .emit, line, .emit, line, .emit]
    ++ turn ++ turn ++ turn ++ [line, .emit] ++ turn ++ turn ++ turn

/-- A marker is made after the event that is queued behind it, and sorting by
    numbers exchanges the two. -/
theorem order_not_restored :
    ¬ ∀ (capacity : Nat) (subscribers : List Subscriber) (turns : List FeedTurn) (k : Nat),
      let handed := ((Feed.start capacity subscribers).after turns).docket.handedTo k
      sortByNumber handed = handed := by
  intro h
  have hsame := h 8 [{ name := "slow", capacity := 2 }] markedLate 0
  have hnumbers : (((Feed.start 8 [{ name := "slow", capacity := 2 }]).after
      markedLate).docket.handedTo 0).map Event.number = [0, 1, 2, 5, 4] := by
    decide
  have hapart := List.pairwise_map.mp (hnumbers ▸ (by decide : [0, 1, 2, 5, 4].Pairwise (· ≠ ·)))
  have hincreasing := List.pairwise_map.mpr ((sortByNumber_eq_self_iff hapart).mp hsame)
  rw [hnumbers] at hincreasing
  exact absurd hincreasing (by decide)

end SoftPlc
