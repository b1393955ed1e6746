import SoftPlc.Proofs.Lane.Reports

/-!
# Workers

A worker hands its subscriber what is placed in the queue of its lane, in that
order and each entry once. Whether the subscriber panics makes no difference to
that: a panic ends the handling of one event and is reported, and the next is
taken. Only a worker that is destroyed leaves something behind, which is what
was on the queue then, and nothing is placed there afterwards. So what has been
placed is what has been handed over, what is in hand, what is queued and what
was left behind, one after the other: `Lane.Worked`.

Once a lane is closed nothing more is placed. Its worker has so much to do and
no more, and when it has nothing left to do it has handed over everything.

Nothing that happens to one lane depends on another. Two lanes of the same
subscriber, among others in any number and of any kind, part with nothing but
numbers, as long as the same is emitted and their own workers and states are
treated alike. To see this the numbers are erased, and what is left of a lane is
a function of what it has seen, `Lane.follow`, in which nobody else occurs.

## Main definitions

* `Docket.placedIn`: What was placed in the queue of a lane.
* `Lane.Worked`: What was placed and where it is now.
* `Lane.Idle`: A worker has nothing to do.
* `closing`: The lanes are closed.
* `Lane.sketch`: A lane without numbers.
* `Lane.follow`: What becomes of a lane and of what it has seen.

## Theorems

* `Lane.Worked.fares`: Whatever becomes of a lane, nothing is lost on the way.
* `Docket.closed_after`: Nothing is placed in a lane that is closed.
* `Docket.rests`: The workers can end what there is to do.
* `Docket.followed_after`: A lane does what it would do alone.
* `workers_independent`: All of this, for any lanes.
-/

namespace SoftPlc

/-- What was placed in the queue of one lane. -/
def Docket.placedIn (d : Docket) (k : Nat) : List Event :=
  (d.deliveredTo k).flatMap Delivery.placed

namespace Lane

variable {l l' : Lane} {k : Nat} {v : Option LaneView} {xs : List Delivery}
  {es placed handed : List Event}

/-- What was placed in a lane is what was handed over, what is in hand, what is
    queued and what the worker has left behind. -/
structure Worked (l : Lane) (placed handed : List Event) : Prop where
  placed : ∃ lost, placed = handed ++ l.inHand.toList ++ l.queue ++ lost ∧
    (l.state ≠ .abandoned → lost = [])
  gone : l.state = .abandoned → l.inHand = none ∧ l.queue = []

/-- The worker has nothing to do. -/
def Idle (l : Lane) : Prop :=
  l.inHand = none ∧ l.queue = []

theorem close_cases (l : Lane) :
    l.state = .attended ∧ l.close = { l with state := .sealed } ∨
    l.state ≠ .attended ∧ l.close = l := by
  unfold close
  split
  next ha => exact .inl ⟨ha, rfl⟩
  next ha => exact .inr ⟨ha, rfl⟩

theorem take_cases (l : Lane) :
    (∃ e rest, l.inHand = none ∧ l.queue = e :: rest ∧
      l.take = { l with inHand := some e, queue := rest }) ∨
    (l.inHand ≠ none ∨ l.queue = []) ∧ l.take = l := by
  unfold take
  split
  next e rest hfree hqueue => exact .inl ⟨e, rest, hfree, hqueue, rfl⟩
  next hnot =>
    refine .inr ⟨?_, rfl⟩
    by_cases hfree : l.inHand = none
    · cases hqueue : l.queue with
      | nil => exact .inr rfl
      | cons e rest => exact absurd hqueue (hnot e rest hfree)
    · exact .inl hfree

theorem worked_fresh (s : Subscriber) : Worked { subscriber := s } [] [] :=
  ⟨⟨[], rfl, fun _ => rfl⟩, fun _ => ⟨rfl, rfl⟩⟩

/-- A delivery adds to the end of what was placed, if nothing was left behind. -/
theorem Worked.deliver {x : Delivery} (h : x.lane.Worked placed handed) :
    x.outcome.1.Worked (placed ++ x.placed) handed := by
  rcases h.placed with ⟨lost, hplaced, hlost⟩
  rw [x.outcome_eq]
  constructor
  · by_cases hgone : x.lane.state = .abandoned
    · have hclosed : x.lane.state ≠ .attended := by
        rw [hgone]
        exact LaneState.noConfusion
      refine ⟨lost, ?_, hlost⟩
      rw [x.placed_of_closed hclosed, List.append_nil, List.append_nil]
      exact hplaced
    · refine ⟨[], ?_, fun _ => rfl⟩
      rw [hlost hgone, List.append_nil] at hplaced
      rw [hplaced, List.append_nil, List.append_assoc]
  · intro hgone
    have hclosed : x.lane.state ≠ .attended := by
      rw [show x.lane.state = .abandoned from hgone]
      exact LaneState.noConfusion
    refine ⟨(h.gone hgone).1, ?_⟩
    rw [x.placed_of_closed hclosed, List.append_nil]
    exact (h.gone hgone).2

/-- An event that is taken in hand was first on the queue. -/
theorem Worked.take (h : l.Worked placed handed) : l.take.Worked placed handed := by
  rcases l.take_cases with ⟨e, rest, hfree, hqueue, htake⟩ | ⟨_, htake⟩
  · rcases h.placed with ⟨lost, hplaced, hlost⟩
    rw [htake]
    refine ⟨⟨lost, ?_, hlost⟩, fun hgone => ?_⟩
    · rw [hplaced, hfree, hqueue]
      simp
    · have hnone := (h.gone hgone).2
      rw [hqueue] at hnone
      exact absurd hnone (List.cons_ne_nil e rest)
  · rw [htake]
    exact h

/-- The event in hand is what was placed next. -/
theorem Worked.handle (h : l.Worked placed handed) :
    { l with inHand := none : Lane }.Worked placed (handed ++ l.inHand.toList) := by
  rcases h.placed with ⟨lost, hplaced, hlost⟩
  refine ⟨⟨lost, ?_, hlost⟩, fun hgone => ⟨rfl, (h.gone hgone).2⟩⟩
  rw [hplaced, Option.toList_none, List.append_nil]

/-- A lane that is closed keeps what is queued, and the worker goes on with it. -/
theorem Worked.close (h : l.Worked placed handed) : l.close.Worked placed handed := by
  rcases l.close_cases with ⟨ha, hclose⟩ | ⟨_, hclose⟩
  · rcases h.placed with ⟨lost, hplaced, hlost⟩
    rw [hclose]
    refine ⟨⟨lost, hplaced, fun _ => hlost ?_⟩, fun hgone => LaneState.noConfusion hgone⟩
    rw [ha]
    exact LaneState.noConfusion
  · rw [hclose]
    exact h

/-- What the worker holds is left behind, with what was before. -/
theorem Worked.abandon (h : l.Worked placed handed) : l.abandon.Worked placed handed := by
  rcases h.placed with ⟨lost, hplaced, _⟩
  refine ⟨⟨l.inHand.toList ++ l.queue ++ lost, ?_, fun hgone => absurd rfl hgone⟩,
    fun _ => ⟨rfl, rfl⟩⟩
  rw [hplaced]
  simp [Lane.abandon]

/-- Whatever becomes of a lane, nothing is lost on the way. -/
theorem Worked.fares (h : l.Worked placed handed) (hfares : l.Fares k v l' xs es) :
    l'.Worked (placed ++ xs.flatMap Delivery.placed) (handed ++ es) := by
  cases hfares with
  | aside => simpa using h
  | declined e hno => simpa using h
  | delivered e j hyes =>
      rw [List.flatMap_singleton, List.append_nil]
      exact Worked.deliver (x := ⟨k, e, l, j⟩) h
  | take => simpa using h.take
  | handle => simpa using h.handle
  | close => simpa using h.close
  | abandon => simpa using h.abandon

end Lane

namespace Docket

variable {d : Docket} {k : Nat} {l : Lane}

/-- In any run the worker of a lane hands over what was placed, in order and
    each event once. -/
theorem worked_after (hl : d.now.1[k]? = some l) (h : l.Worked (d.placedIn k) (d.handedTo k))
    (turns : List LaneTurn) :
    ∃ l', (d.after turns).now.1[k]? = some l' ∧ l'.subscriber = l.subscriber ∧
      l'.Worked ((d.after turns).placedIn k) ((d.after turns).handedTo k) := by
  refine lane_after (P := fun _ now xs es => now.subscriber = l.subscriber ∧
    now.Worked (xs.flatMap Delivery.placed) es) ?_ hl ⟨rfl, h⟩ turns
  rintro _ now xs es v now' xs' es' ⟨hsubscriber, hworked⟩ hfares
  rw [List.flatMap_append]
  exact ⟨hfares.subscriber.trans hsubscriber, hworked.fares hfares⟩

/-- Nothing is placed in a lane that is closed. -/
theorem closed_after (hl : d.now.1[k]? = some l) (hc : l.state ≠ .attended)
    (turns : List LaneTurn) : (d.after turns).placedIn k = d.placedIn k := by
  have hrun : ∃ l', (d.after turns).now.1[k]? = some l' ∧ l'.state ≠ .attended ∧
      (d.after turns).placedIn k = d.placedIn k := by
    refine lane_after (P := fun _ now xs _ => now.state ≠ .attended ∧
      xs.flatMap Delivery.placed = d.placedIn k) ?_ hl ⟨hc, rfl⟩ turns
    rintro _ now xs es v now' xs' es' ⟨hclosed, hplaced⟩ hfares
    rw [List.flatMap_append, hplaced]
    cases hfares with
    | aside => exact ⟨hclosed, List.append_nil _⟩
    | declined e hno => exact ⟨hclosed, List.append_nil _⟩
    | delivered e j hyes =>
        have hnone : (⟨k, e, now, j⟩ : Delivery).placed = [] :=
          Delivery.placed_of_closed (x := ⟨k, e, now, j⟩) hclosed
        rw [Delivery.outcome_eq, List.flatMap_singleton, hnone, List.append_nil]
        exact ⟨hclosed, List.append_nil _⟩
    | take =>
        refine ⟨?_, List.append_nil _⟩
        rcases now.take_cases with ⟨_, _, _, _, htake⟩ | ⟨_, htake⟩
        · rw [htake]
          exact hclosed
        · rw [htake]
          exact hclosed
    | handle => exact ⟨hclosed, List.append_nil _⟩
    | close =>
        refine ⟨?_, List.append_nil _⟩
        rcases now.close_cases with ⟨ha, _⟩ | ⟨_, hclose⟩
        · exact absurd ha hclosed
        · rw [hclose]
          exact hclosed
    | abandon => exact ⟨LaneState.noConfusion, List.append_nil _⟩
  rcases hrun with ⟨_, _, _, hplaced⟩
  exact hplaced

end Docket

/-- All lanes are closed. -/
def Docket.shut (d : Docket) : Docket :=
  { d with now := (d.now.1.map Lane.close, d.now.2) }

/-- A worker does something. -/
def LaneTurn.isWork : LaneTurn → Bool
  | .act (.take _) | .act (.handle _) => true
  | _ => false

/-- A worker finishes with the event in hand and takes another, so many
    times. -/
def rounds (k n : Nat) : List LaneTurn :=
  (List.replicate n [.act (.handle k), .act (.take k)]).flatten

theorem mem_rounds {k n : Nat} {t : LaneTurn} (h : t ∈ rounds k n) :
    t = .act (.handle k) ∨ t = .act (.take k) := by
  rcases List.mem_flatten.mp h with ⟨round, hround, ht⟩
  rw [List.eq_of_mem_replicate hround] at ht
  simpa using ht

theorem rounds_succ (k n : Nat) :
    rounds k (n + 1) = rounds k n ++ [.act (.handle k), .act (.take k)] := by
  rw [rounds, List.replicate_succ', List.flatten_append, List.flatten_singleton]
  rfl

theorem Lane.closed_close (l : Lane) : l.close.state ≠ .attended := by
  rcases l.close_cases with ⟨_, hclose⟩ | ⟨hc, hclose⟩
  · rw [hclose]
    exact LaneState.noConfusion
  · rw [hclose]
    exact hc

namespace Docket

variable {d : Docket} {k : Nat} {l : Lane}

theorem after_append (d : Docket) (turns more : List LaneTurn) :
    d.after (turns ++ more) = (d.after turns).after more :=
  List.foldl_append

/-- What is not done to a lane does not touch it. -/
theorem after_aside (hl : d.now.1[k]? = some l) {turns : List LaneTurn}
    (haside : ∀ t ∈ turns, t.view k = none) : (d.after turns).now.1[k]? = some l := by
  have hrun : ∃ l', (d.after turns).now.1[k]? = some l' ∧
      (turns.filterMap (LaneTurn.view k) = [] → l' = l) := by
    refine lane_after (P := fun views now _ _ => views = [] → now = l) ?_ hl (fun _ => rfl) turns
    intro views now xs es v now' xs' es' hsame hfares hnone
    rcases List.append_eq_nil_iff.mp hnone with ⟨hviews, hv⟩
    cases hfares with
    | aside => exact hsame hviews
    | declined e hno => exact hsame hviews
    | delivered e j hyes => exact absurd hv (List.cons_ne_nil _ _)
    | take => exact absurd hv (List.cons_ne_nil _ _)
    | handle => exact absurd hv (List.cons_ne_nil _ _)
    | close => exact absurd hv (List.cons_ne_nil _ _)
    | abandon => exact absurd hv (List.cons_ne_nil _ _)
  rcases hrun with ⟨l', hl', hsame⟩
  rw [hl', hsame (List.filterMap_eq_nil_iff.mpr haside)]

/-- A round ends with what is in hand and takes what is next. -/
theorem see_round (hl : d.now.1[k]? = some l) :
    ((d.see (.act (.handle k))).see (.act (.take k))).now.1[k]?
      = some { l with inHand := l.queue.head?, queue := l.queue.tail } := by
  rcases fares_see hl (.act (.handle k)) with ⟨freed, _, _, hfreed, _, _, hhandle⟩
  rw [LaneTurn.view, if_pos rfl] at hhandle
  cases hhandle with
  | handle =>
      rcases fares_see hfreed (.act (.take k)) with ⟨taken, _, _, htaken, _, _, htake⟩
      rw [LaneTurn.view, if_pos rfl] at htake
      cases htake with
      | take =>
          rw [htaken, Lane.take]
          cases hqueue : l.queue with
          | nil => simp
          | cons e rest => simp

/-- Each round takes one event off the queue. -/
theorem after_rounds (hl : d.now.1[k]? = some l) (n : Nat) :
    ∃ l', (d.after (rounds k n)).now.1[k]? = some l' ∧ l'.queue = l.queue.drop n ∧
      (l.queue.length < n → l'.inHand = none) := by
  induction n with
  | zero => exact ⟨l, hl, rfl, fun h => absurd h (Nat.not_lt_zero _)⟩
  | succ n ih =>
      rcases ih with ⟨l', hl', hqueue, _⟩
      refine ⟨{ l' with inHand := l'.queue.head?, queue := l'.queue.tail }, ?_, ?_, fun hn => ?_⟩
      · rw [rounds_succ, after_append]
        exact see_round hl'
      · rw [hqueue, List.tail_drop]
      · rw [hqueue, List.head?_drop, List.getElem?_eq_none (Nat.le_of_lt_succ hn)]

theorem length_after (d : Docket) (turns : List LaneTurn) :
    (d.after turns).now.1.length = d.now.1.length := by
  induction turns generalizing d with
  | nil => rfl
  | cons t rest ih =>
      have hstaff := congrArg List.length (staff_apply d.now t)
      rw [List.length_map, List.length_map] at hstaff
      exact (ih (d.see t)).trans hstaff

/-- The workers can end what there is to do. -/
theorem rests (d : Docket) :
    ∃ finish : List LaneTurn, (∀ t ∈ finish, t.isWork = true) ∧
      ∀ l ∈ (d.after finish).now.1, l.Idle := by
  suffices hall : ∀ n ≤ d.now.1.length, ∃ finish : List LaneTurn,
      (∀ t ∈ finish, t.isWork = true) ∧
      ∀ k l, k < n → (d.after finish).now.1[k]? = some l → l.Idle by
    rcases hall d.now.1.length (Nat.le_refl _) with ⟨finish, hwork, hidle⟩
    refine ⟨finish, hwork, fun l hl => ?_⟩
    rcases List.getElem?_of_mem hl with ⟨k, hk⟩
    have hlt := (List.getElem?_eq_some_iff.mp hk).1
    rw [length_after] at hlt
    exact hidle k l hlt hk
  intro n
  -- The lanes are brought to rest one after the other; those before stay idle.
  induction n with
  | zero => exact fun _ => ⟨[], fun t ht => absurd ht List.not_mem_nil,
      fun k l hk => absurd hk (Nat.not_lt_zero k)⟩
  | succ n ih =>
      intro hn
      rcases ih (Nat.le_of_succ_le hn) with ⟨finish, hwork, hidle⟩
      have hlt : n < (d.after finish).now.1.length := by
        rw [length_after]
        exact hn
      have hlane := List.getElem?_eq_getElem hlt
      rcases after_rounds hlane ((d.after finish).now.1[n].queue.length + 1)
        with ⟨last, hlast, hqueue, hhand⟩
      refine ⟨finish ++ rounds n ((d.after finish).now.1[n].queue.length + 1), fun t ht => ?_,
        fun k l hk hl => ?_⟩
      · rcases List.mem_append.mp ht with hold | hnew
        · exact hwork t hold
        · rcases mem_rounds hnew with rfl | rfl
          · rfl
          · rfl
      · rw [after_append] at hl
        by_cases hkn : k = n
        · rw [hkn, hlast] at hl
          cases hl
          refine ⟨hhand (Nat.lt_succ_self _), ?_⟩
          rw [hqueue, List.drop_eq_nil_of_le (Nat.le_succ _)]
        · -- The other lanes have been idle before, and these turns are not theirs.
          have hkd : k < (d.after finish).now.1.length := by omega
          have hk' := List.getElem?_eq_getElem hkd
          have hother : ∀ t ∈ rounds n ((d.after finish).now.1[n].queue.length + 1),
              t.view k = none := by
            intro t ht
            rcases mem_rounds ht with rfl | rfl
            · exact if_neg fun h => hkn h.symm
            · exact if_neg fun h => hkn h.symm
          rw [after_aside hk' hother] at hl
          cases hl
          exact hidle k _ (by omega) hk'

end Docket

/-- An event without its number. -/
def Event.plain (e : Event) : Event :=
  { e with number := 0 }

/-- What a lane sees, without the number of an event. -/
def LaneView.plain : LaneView → LaneView
  | emit e => .emit e.plain
  | v => v

namespace Lane

variable {l l' : Lane} {k : Nat} {xs : List Delivery} {es : List Event}

/-- A lane without the numbers of the events that it holds. -/
def sketch (l : Lane) : Lane :=
  { l with queue := l.queue.map Event.plain, inHand := l.inHand.map Event.plain }

/-- What becomes of a lane by what it sees, and what its subscriber is
    handed. -/
def meet (l : Lane) : LaneView → Lane × List Event
  | .emit e => (if l.accepts e.kind then l.settled e { bus := default } (l.fate e) else l, [])
  | .take => (l.take, [])
  | .handle => ({ l with inHand := none }, l.inHand.toList)
  | .close => (l.close, [])
  | .abandon => (l.abandon, [])

/-- What becomes of a lane by all that it sees, and what its subscriber is
    handed. -/
def follow (l : Lane) (views : List LaneView) : Lane × List Event :=
  views.foldl (fun r v => ((r.1.meet v).1, r.2 ++ (r.1.meet v).2)) (l, [])

theorem resumes_sketch (l : Lane) : l.sketch.Resumes ↔ l.Resumes := by
  unfold Resumes
  rw [show l.sketch.queue.length = l.queue.length from List.length_map _]
  exact Iff.rfl

theorem opening_sketch (l : Lane) (j : Journal) :
    l.sketch.opening { bus := default } = (l.opening j).map Event.plain := by
  by_cases h : l.Resumes
  · rw [opening, opening, if_pos h, if_pos (l.resumes_sketch.mpr h)]
    rfl
  · rw [opening, opening, if_neg h, if_neg fun hc => h (l.resumes_sketch.mp hc)]
    rfl

theorem fate_sketch (l : Lane) (e : Event) : l.sketch.fate e.plain = l.fate e := by
  have hlength : l.sketch.queue.length = l.queue.length := List.length_map _
  have hroom : l.sketch.HasRoom ↔ l.HasRoom := by
    rw [HasRoom, HasRoom, gap, gap, hlength]
    exact Iff.rfl
  rw [fate, fate]
  simp only [hroom]
  rfl

/-- What becomes of an event is the same, but for the number of the marker before it. -/
theorem settled_sketch (l : Lane) (e : Event) (j : Journal) :
    l.sketch.settled e.plain { bus := default } (l.sketch.fate e.plain)
      = (l.settled e j (l.fate e)).sketch := by
  have hmissing : l.sketch.missing = l.missing := by
    rw [missing, missing]
    simp only [l.resumes_sketch]
    rfl
  rw [fate_sketch]
  cases l.fate e with
  | queued =>
      dsimp only [settled]
      rw [hmissing, l.opening_sketch j]
      simp [sketch]
  | counted =>
      dsimp only [settled]
      rw [hmissing, l.opening_sketch j]
      simp [sketch]
  | reported reason =>
      dsimp only [settled]
      rw [hmissing, l.opening_sketch j]
      simp [sketch]
  | silenced =>
      dsimp only [settled]
      rw [hmissing, l.opening_sketch j]
      simp [sketch]

theorem take_sketch (l : Lane) : l.sketch.take = l.take.sketch := by
  rcases l with ⟨subscriber, queue, skipped, inHand, state⟩
  cases inHand with
  | none =>
      cases queue with
      | nil => rfl
      | cons e rest => rfl
  | some e => rfl

theorem close_sketch (l : Lane) : l.sketch.close = l.close.sketch := by
  rcases l with ⟨subscriber, queue, skipped, inHand, state⟩
  cases state with
  | attended => rfl
  | «sealed» => rfl
  | abandoned => rfl

/-- Whatever a lane sees, it becomes of it what it would without numbers. -/
theorem Fares.meet {v : LaneView} (h : l.Fares k (some v) l' xs es) :
    l.sketch.meet v.plain = (l'.sketch, es.map Event.plain) := by
  cases h with
  | declined e hno =>
      have hkind : l.sketch.accepts e.plain.kind = l.accepts e.kind := rfl
      rw [LaneView.plain, Lane.meet, hkind, hno]
      rfl
  | delivered e j hyes =>
      have hkind : l.sketch.accepts e.plain.kind = l.accepts e.kind := rfl
      rw [LaneView.plain, Lane.meet, hkind, if_pos hyes, settled_sketch l e j,
        Delivery.outcome_lane]
      rfl
  | take => exact congrArg (·, []) l.take_sketch
  | handle =>
      dsimp only [LaneView.plain, Lane.meet, sketch]
      cases l.inHand with
      | none => rfl
      | some e => rfl
  | close => exact congrArg (·, []) l.close_sketch
  | abandon => rfl

end Lane

namespace Docket

variable {d : Docket} {k : Nat} {l : Lane}

/-- A lane does what it would do alone. -/
theorem followed_after (hl : d.now.1[k]? = some l) (hnone : d.handedTo k = [])
    (turns : List LaneTurn) :
    ((d.after turns).handedTo k).map Event.plain
      = (l.sketch.follow ((turns.filterMap (LaneTurn.view k)).map LaneView.plain)).2 := by
  have hrun : ∃ l', (d.after turns).now.1[k]? = some l' ∧
      l.sketch.follow ((turns.filterMap (LaneTurn.view k)).map LaneView.plain)
        = (l'.sketch, ((d.after turns).handedTo k).map Event.plain) := by
    refine lane_after (P := fun views now _ es => l.sketch.follow (views.map LaneView.plain)
      = (now.sketch, es.map Event.plain)) ?_ hl (by rw [hnone]; rfl) turns
    intro views now xs es v now' xs' es' hfollow hfares
    cases v with
    | none =>
        cases hfares with
        | aside => rw [Option.toList_none, List.append_nil, List.append_nil, hfollow]
    | some v =>
        rw [Option.toList_some, List.map_append, List.map_append, Lane.follow, List.foldl_append]
        rw [Lane.follow] at hfollow
        rw [hfollow]
        simp only [List.map_cons, List.map_nil, List.foldl_cons, List.foldl_nil, hfares.meet]
  rcases hrun with ⟨l', _, hfollow⟩
  rw [hfollow]

end Docket

/-- At the beginning each subscriber has a lane with nothing on it. -/
theorem freshLanes_place {subscribers : List Subscriber} {k : Nat} {s : Subscriber}
    (hs : subscribers[k]? = some s) (j : Journal) :
    (freshLanes subscribers j).1[k]? = some { subscriber := s } := by
  rw [freshLanes, List.getElem?_map, hs, Option.map_some]

/-- Whatever is emitted and however the workers are slowed down, closed down or
    destroyed: what a subscriber is handed is what was placed in its queue, in
    order and each entry once, and while its worker lives the rest is in hand
    or still queued. Every event that a subscriber meets with a panic is
    reported once, with the name of the lane and the text of the panic, and
    nothing else is reported as a panic. When the lanes are closed nothing more
    is placed, the workers can end what there is to do, and those that live
    have then handed over everything. And what is handed over in a lane depends
    on nothing but its subscriber, what is emitted and what is done to that
    lane, but for numbers. -/
theorem workers_independent (subscribers : List Subscriber) (j : Journal)
    (turns : List LaneTurn) :
    let d := (Docket.start (freshLanes subscribers j)).after turns
    (∀ k s, subscribers[k]? = some s → ∃ l, d.now.1[k]? = some l ∧ l.subscriber = s ∧
      d.handedTo k <+: d.placedIn k ∧
      (l.state ≠ .abandoned → d.placedIn k = d.handedTo k ++ l.inHand.toList ++ l.queue)) ∧
    ((∀ h ∈ d.handovers, subscribers[h.index]? = some h.subscriber) ∧
      ∃ published, d.now.2.bus = j.bus.publishAll published ∧
        (j.bus.closed = false → j.bus.receiverCount ≠ 0 →
          d.now.2.bus.log.toList = j.bus.log.toList ++ published) ∧
        (published.map Event.notice).filter Notice.isPanic
          = d.handovers.flatMap Handover.reports) ∧
    (∀ more : List LaneTurn,
      (∀ k s, subscribers[k]? = some s → (d.shut.after more).placedIn k = d.placedIn k ∧
        ∃ l, (d.shut.after more).now.1[k]? = some l ∧
          (l.state ≠ .abandoned → l.Idle → (d.shut.after more).handedTo k = d.placedIn k)) ∧
      ∃ finish : List LaneTurn, (∀ t ∈ finish, t.isWork = true) ∧
        ∀ l ∈ ((d.shut.after more).after finish).now.1, l.Idle) ∧
    (∀ others j' turns' i i' s, subscribers[i]? = some s → others[i']? = some s →
      (turns.filterMap (LaneTurn.view i)).map LaneView.plain
        = (turns'.filterMap (LaneTurn.view i')).map LaneView.plain →
      (d.handedTo i).map Event.plain
        = (((Docket.start (freshLanes others j')).after turns').handedTo i').map Event.plain) := by
  intro d
  have hworked : ∀ k s, subscribers[k]? = some s → ∃ l : Lane, d.now.1[k]? = some l ∧
      l.subscriber = s ∧ l.Worked (d.placedIn k) (d.handedTo k) := by
    intro k s hs
    have hstart : (Docket.start (freshLanes subscribers j)).now.1[k]? = some { subscriber := s } :=
      freshLanes_place hs j
    exact Docket.worked_after hstart (Lane.worked_fresh s) turns
  refine ⟨fun k s hs => ?_, ⟨?_, ?_⟩, fun more => ⟨fun k s hs => ?_, Docket.rests _⟩, ?_⟩
  · rcases hworked k s hs with ⟨l, hl, hsubscriber, hw⟩
    rcases hw.placed with ⟨lost, hplaced, hlost⟩
    refine ⟨l, hl, hsubscriber, ⟨l.inHand.toList ++ l.queue ++ lost, ?_⟩, fun hlive => ?_⟩
    · rw [hplaced, List.append_assoc, List.append_assoc, List.append_assoc]
    · rw [hplaced, hlost hlive, List.append_nil]
  · have hstaffed := Docket.staffed_after (freshLanes subscribers j) turns
    have hstaff : (freshLanes subscribers j).1.map Lane.subscriber = subscribers := by
      rw [freshLanes, List.map_map]
      exact List.map_id subscribers
    rw [hstaff] at hstaffed
    exact hstaffed.handovers
  · rcases Docket.told_after (freshLanes subscribers j) turns
      with ⟨notices, ⟨published, hbus, rfl⟩, _, hpanics⟩
    refine ⟨published, hbus, fun hopen hheard => ?_, hpanics⟩
    rw [hbus]
    exact Bus.log_publishAll hopen hheard published
  · rcases hworked k s hs with ⟨l, hl, _, hw⟩
    have hclose : d.shut.now.1[k]? = some l.close := by
      rw [Docket.shut, List.getElem?_map, hl, Option.map_some]
    have hplaced : (d.shut.after more).placedIn k = d.placedIn k :=
      Docket.closed_after hclose l.closed_close more
    rcases Docket.worked_after hclose hw.close more with ⟨last, hlast, _, hw'⟩
    refine ⟨hplaced, last, hlast, fun hlive hidle => ?_⟩
    rcases hw'.placed with ⟨lost, hall, hlost⟩
    rw [hlost hlive, hidle.1, hidle.2, hplaced] at hall
    simpa using hall.symm
  · -- A lane is followed by its own view alone, and it is the same view.
    intro others j' turns' i i' s hs hs' hviews
    rw [Docket.followed_after (freshLanes_place hs j) rfl turns,
      Docket.followed_after (freshLanes_place hs' j') rfl turns', hviews]

end SoftPlc
