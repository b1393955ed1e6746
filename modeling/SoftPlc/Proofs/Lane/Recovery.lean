import SoftPlc.Proofs.Lane.Gaps

/-!
# When a lane recovers

A subscriber that has caught up finds its queue empty, and the next event that
it wants should reach it. It does if there is room for that event behind the
marker of a gap: `Lane.catches_iff`. An empty queue has room for both, or no
line is missing, unless the queue holds one event only. Then the marker takes
the place of the event, and the event is lost itself. If it is a line, this
opens the next gap, so such a lane never gets out of it: as long as nothing but
lines come, its subscriber is given markers and no line any more, however fast
it is.

A lane that does recover stays recovered for as long as its subscriber keeps
up, that is, has emptied the queue whenever an event comes.

## Main definitions

* `Lane.owed`: The marker for the lines that are missing.
* `Lane.Catches`: A delivery that leaves nothing out.
* `Lane.Ample`: No line is missing, or there is room for a marker and an event.
* `KeepsUp`: The queue is empty whenever something is delivered.

## Theorems

* `Lane.catches_iff`: Which deliveries leave nothing out.
* `caught_follow`: What a subscriber that keeps up is given.
* `starved_follow`: What it is given if there is no room for two.
* `recovers_iff`: Both, for any lane at any time.
-/

namespace SoftPlc

namespace Lane

variable {l : Lane} {e : Event} {j : Journal}

/-- The marker for the lines that are missing, whether it fits or not. -/
def owed (l : Lane) : List Placement :=
  if l.skipped = 0 then [] else [.marker l.skipped]

/-- An event that is delivered is queued behind the marker that is owed; no line
    is missing then, and nothing is reported. -/
structure Catches (l : Lane) (e : Event) (j : Journal) : Prop where
  queue : ∃ markers, (l.deliver e j).1.queue = l.queue ++ markers ++ [e] ∧
    List.Forall₂ (Placement.Shows l.subscriber.name) l.owed markers
  skipped : (l.deliver e j).1.skipped = 0
  bus : (l.deliver e j).2.bus = j.bus

/-- No line is missing, or the queue may hold a marker and an event. -/
def Ample (l : Lane) : Prop :=
  l.skipped = 0 ∨ 2 ≤ l.subscriber.capacity

/-- The marker that is owed is placed only if it fits. -/
theorem length_gap_le (l : Lane) : l.gap.length ≤ l.owed.length := by
  unfold gap owed
  split
  next h => simp [h.1]
  next => exact Nat.zero_le _

/-- Where there is room behind it, it fits. -/
theorem gap_of_hasRoom (h : l.HasRoom) : l.gap = l.owed := by
  have hroom : l.queue.length < l.capacity := Nat.lt_of_le_of_lt (Nat.le_add_right _ _) h
  unfold gap owed
  by_cases hs : l.skipped = 0
  · rw [if_neg fun hc => hc.1 hs, if_pos hs]
  · rw [if_pos ⟨hs, hroom⟩, if_neg hs]

/-- An event that is delivered as it is, and finds room, is queued and that is all. -/
theorem deliverHere_of_room (ha : l.state = .attended) (hroom : l.queue.length < l.capacity) :
    l.deliverHere e j = ({ l with queue := l.queue ++ [e] }, j) := by
  rw [deliverHere, offer_of_room l e ha hroom]

/-- Where there is room for the event behind the marker, both are queued, and
    all that becomes of the journal is that the marker draws a number. -/
theorem deliver_of_hasRoom (ha : l.state = .attended) (h : l.HasRoom) :
    ∃ markers next, l.deliver e j
        = ({ l with queue := l.queue ++ markers ++ [e], skipped := 0 }, { j with next }) ∧
      List.Forall₂ (Placement.Shows l.subscriber.name) l.owed markers := by
  have hroom : l.queue.length + l.owed.length < l.capacity := gap_of_hasRoom h ▸ h
  unfold owed at hroom ⊢
  by_cases hs : l.skipped = 0
  · rw [if_pos hs] at hroom ⊢
    refine ⟨[], j.next, ?_, .nil⟩
    rw [deliver_of_no_gap l e j hs, deliverHere_of_room ha hroom, List.append_nil, ← hs]
  · rw [if_neg hs] at hroom ⊢
    refine ⟨[⟨j.next, .outputSkipped l.subscriber.name l.skipped⟩], j.next + 1, ?_,
      .cons rfl .nil⟩
    have hmarker : l.queue.length < l.capacity := Nat.lt_of_succ_lt hroom
    rw [deliver, if_neg hs]
    dsimp only [Journal.make]
    rw [offer_of_room l _ ha hmarker]
    dsimp only
    rw [deliverHere_of_room (by exact ha)]
    rw [List.length_append]
    exact hroom

/-- A delivery leaves nothing out if and only if there is room for the event
    behind the marker. -/
theorem catches_iff_hasRoom (ha : l.state = .attended) : l.Catches e j ↔ l.HasRoom := by
  rcases deliver_eq l 0 e j ha with ⟨entries, hdeliver, hshows⟩
  constructor
  · intro h
    rcases h.queue with ⟨markers, hqueue, howed⟩
    rw [hdeliver, List.append_assoc] at hqueue
    have hentries : entries = markers ++ [e] := List.append_cancel_left hqueue
    -- The entries are one more than the marker, so the event is among what was placed.
    by_contra hroom
    have hlength := hshows.length_eq
    rw [placements, if_neg hroom, List.append_nil, hentries, List.length_append,
      ← howed.length_eq, List.length_singleton] at hlength
    have hle := l.length_gap_le
    omega
  · intro h
    rcases deliver_of_hasRoom ha h with ⟨markers, next, heq, howed⟩
    exact ⟨⟨markers, by rw [heq], howed⟩, by rw [heq], by rw [heq]⟩

/-- An empty queue has room for one event in any case. -/
theorem hasRoom_iff_ample (hempty : l.queue = []) : l.HasRoom ↔ l.Ample := by
  unfold HasRoom gap capacity Ample
  rw [hempty, List.length_nil]
  by_cases hs : l.skipped = 0
  · rw [if_neg fun hc => hc.1 hs, List.length_nil]
    exact iff_of_true (by omega) (.inl hs)
  · rw [if_pos ⟨hs, by omega⟩, List.length_singleton, or_iff_right hs]
    omega

/-- A delivery to an empty queue leaves nothing out if and only if no line is
    missing or there is room for two. -/
theorem catches_iff (ha : l.state = .attended) (hempty : l.queue = []) :
    l.Catches e j ↔ l.Ample :=
  (catches_iff_hasRoom ha).trans (hasRoom_iff_ample hempty)

end Lane

/-- The lane for the events that come has an empty queue whenever it accepts one
    of them. -/
def KeepsUp (k : Nat) : Lanes → List LaneAction → Prop
  | _, [] => True
  | now, a :: rest =>
    (∀ e l, a = .emit e → now.1[k]? = some l → l.accepts e.kind = true → l.queue = []) ∧
      KeepsUp k (a.apply now) rest

/-- The events that a lane with this subscriber accepts. -/
def Lane.acceptedOf (l : Lane) (actions : List LaneAction) : List Event :=
  (actions.filterMap LaneAction.emitted?).filter fun e => l.accepts e.kind

namespace Lane

variable {l : Lane} {k : Nat} {j : Journal} {p : Passage}

/-- What a lane accepts is up to its subscriber. -/
theorem acceptedOf_congr {l' : Lane} (h : l'.subscriber = l.subscriber)
    (actions : List LaneAction) : l'.acceptedOf actions = l.acceptedOf actions := by
  have haccepts : l'.accepts = l.accepts := by
    funext kind
    unfold accepts
    rw [h]
  rw [acceptedOf, acceptedOf, haccepts]

/-- Nothing is accepted but with an emission, and then it is the event. -/
theorem acceptedOf_cons (a : LaneAction) (rest : List LaneAction) :
    (∃ e, a = .emit e ∧ l.accepts e.kind = true ∧
        l.acceptedOf (a :: rest) = e :: l.acceptedOf rest) ∨
      ((∀ e, a = .emit e → l.accepts e.kind = false) ∧
        l.acceptedOf (a :: rest) = l.acceptedOf rest) := by
  cases a with
  | emit e =>
      cases hw : l.accepts e.kind with
      | true =>
          exact .inl ⟨e, rfl, hw, List.filter_cons_of_pos hw⟩
      | false =>
          refine .inr ⟨fun e' he => LaneAction.emit.inj he ▸ hw, List.filter_cons_of_neg ?_⟩
          exact Bool.eq_false_iff.mp hw
  | take i => exact .inr ⟨fun e he => absurd he LaneAction.noConfusion, rfl⟩
  | handle i => exact .inr ⟨fun e he => absurd he LaneAction.noConfusion, rfl⟩

/-- An action that is no event for the lane neither places anything nor counts it. -/
theorem after_of_unaccepted {a : LaneAction} (h : ∀ e, a = .emit e → l.accepts e.kind = false) :
    (p.note k l a).placed = p.placed ∧ (p.note k l a).accepted = p.accepted ∧
      (l.after k j a).skipped = l.skipped := by
  cases a with
  | emit e =>
      have hno : ¬ l.accepts e.kind = true := Bool.eq_false_iff.mp (h e rfl)
      rw [Passage.note, if_neg hno, after, if_neg hno]
      exact ⟨rfl, rfl, rfl⟩
  | take i =>
      rcases take_lane l with ⟨queue, inHand, htake, _⟩
      rw [Passage.note, after]
      by_cases hik : i = k
      · rw [if_pos hik, if_pos hik, htake]
        exact ⟨rfl, rfl, rfl⟩
      · rw [if_neg hik, if_neg hik]
        exact ⟨rfl, rfl, rfl⟩
  | handle i =>
      rcases handle_lane l j with ⟨inHand, hhandle⟩
      rw [Passage.note, after]
      by_cases hik : i = k
      · rw [if_pos hik, hhandle]
        exact ⟨rfl, rfl, rfl⟩
      · rw [if_neg hik]
        exact ⟨rfl, rfl, rfl⟩

/-- An event that is caught is placed behind the marker that is owed, and
    nothing is owed then. -/
theorem after_of_caught {e : Event} (ha : l.state = .attended) (hw : l.accepts e.kind = true)
    (h : l.HasRoom) :
    (p.note k l (.emit e)).placed = p.placed ++ l.owed ++ [.passed p.accepted.length e] ∧
      (p.note k l (.emit e)).accepted = p.accepted ++ [e] ∧
      (l.after k j (.emit e)).skipped = 0 := by
  rcases deliver_of_hasRoom (e := e) (j := j) ha h with ⟨markers, next, heq, _⟩
  rw [Passage.note, if_pos hw, placements, if_pos h, gap_of_hasRoom h, List.append_assoc, after,
    if_pos hw, heq]
  exact ⟨rfl, rfl, rfl⟩

/-- Where a line is missing and there is no room for two, a line is never placed. -/
theorem after_of_starved {e : Event} (ha : l.state = .attended) (hw : l.accepts e.kind = true)
    (hstarved : ¬ l.Ample) (hline : e.notice.isLine = true) :
    (∃ lines : List Nat, (p.note k l (.emit e)).placed = p.placed ++ lines.map .marker) ∧
      (l.after k j (.emit e)).skipped ≠ 0 := by
  rcases not_or.mp hstarved with ⟨hskipped, hcapacity⟩
  have hroom : ¬ l.HasRoom := by
    unfold HasRoom gap capacity
    split
    next =>
      rw [List.length_singleton]
      omega
    next hno =>
      rw [List.length_nil]
      exact fun hroom => hno ⟨hskipped, hroom⟩
  constructor
  · rw [Passage.note, if_pos hw, placements, if_neg hroom, List.append_nil]
    unfold gap
    split
    next => exact ⟨[l.skipped], rfl⟩
    next => exact ⟨[], rfl⟩
  · rcases deliver_eq l 0 e j ha with ⟨entries, heq, _⟩
    rw [after, if_pos hw, heq]
    change l.leftOut e ≠ 0
    have hcounted : (if e.notice.isLine ∧ ¬ l.HasRoom then 1 else 0) = 1 :=
      if_pos ⟨hline, hroom⟩
    rw [leftOut, hcounted]
    exact Nat.succ_ne_zero _

end Lane

/-- As long as its subscriber keeps up, a lane with room for two, or without a
    gap, places all that it accepts, behind the marker that is owed. -/
theorem caught_follow (k : Nat) (actions : List LaneAction) (now : Lanes) (p : Passage)
    (l : Lane) (hl : now.1[k]? = some l) (h : Accounted l p) (ha : l.state = .attended)
    (hample : l.Ample) (hkeeps : KeepsUp k now actions) :
    (p.follow k now actions).placed
        = p.placed ++ (if l.acceptedOf actions = [] then [] else l.owed)
          ++ ((l.acceptedOf actions).zipIdx p.accepted.length).map
            (fun x => Placement.passed x.2 x.1) ∧
      ∃ l', (actions.foldl LaneAction.apply now).1[k]? = some l' ∧
        l'.skipped = if l.acceptedOf actions = [] then l.skipped else 0 := by
  induction actions generalizing now p l with
  | nil =>
      refine ⟨?_, l, hl, rfl⟩
      simp [Passage.follow, Lane.acceptedOf]
  | cons a rest ih =>
      rcases apply_lane now a k with ⟨j, hj⟩
      rw [hl, Option.map_some] at hj
      rcases accounted_after h ha k j a with ⟨h', ha', hs⟩
      have hsame := Lane.acceptedOf_congr hs rest
      simp only [Passage.follow, hl, Option.elim_some, List.foldl_cons]
      rcases Lane.acceptedOf_cons (l := l) a rest with ⟨e, rfl, hw, heq⟩ | ⟨hno, heq⟩
      · -- It keeps up, so the queue is empty whenever an event is accepted.
        have hempty := hkeeps.1 e l rfl hl hw
        rcases Lane.after_of_caught (k := k) (j := j) (p := p) ha hw
          ((Lane.hasRoom_iff_ample hempty).mpr hample) with ⟨hplaced, haccepted, hskipped⟩
        rcases ih _ _ _ hj h' ha' (.inl hskipped) hkeeps.2 with ⟨hrest, l', hl', hend⟩
        have howed : (l.after k j (.emit e)).owed = [] := if_pos hskipped
        refine ⟨?_, l', hl', ?_⟩
        · rw [hrest, hplaced, haccepted, hsame, howed, heq, ite_self, List.append_nil,
            if_neg (List.cons_ne_nil _ _), List.zipIdx_cons, List.map_cons, List.length_append,
            List.append_assoc]
          rfl
        · rw [hend, hsame, heq, hskipped, ite_self, if_neg (List.cons_ne_nil _ _)]
      · rcases Lane.after_of_unaccepted (k := k) (j := j) (p := p) hno
          with ⟨hplaced, haccepted, hskipped⟩
        have hample' : (l.after k j a).Ample := by
          rw [Lane.Ample, hskipped, hs]
          exact hample
        have howed : (l.after k j a).owed = l.owed := by
          rw [Lane.owed, Lane.owed, hskipped]
        rcases ih _ _ _ hj h' ha' hample' hkeeps.2 with ⟨hrest, l', hl', hend⟩
        refine ⟨?_, l', hl', ?_⟩
        · rw [hrest, hplaced, haccepted, hsame, howed, heq]
        · rw [hend, hsame, hskipped, heq]

/-- Where a line is missing and there is no room for two, nothing but markers is
    placed as long as nothing but lines come. -/
theorem starved_follow (k : Nat) (actions : List LaneAction) (now : Lanes) (p : Passage)
    (l : Lane) (hl : now.1[k]? = some l) (h : Accounted l p) (ha : l.state = .attended)
    (hstarved : ¬ l.Ample) (hlines : ∀ e ∈ l.acceptedOf actions, e.notice.isLine = true) :
    ∃ lines : List Nat, (p.follow k now actions).placed = p.placed ++ lines.map .marker := by
  induction actions generalizing now p l with
  | nil => exact ⟨[], (List.append_nil _).symm⟩
  | cons a rest ih =>
      rcases apply_lane now a k with ⟨j, hj⟩
      rw [hl, Option.map_some] at hj
      rcases accounted_after h ha k j a with ⟨h', ha', hs⟩
      have hsame := Lane.acceptedOf_congr hs rest
      simp only [Passage.follow, hl, Option.elim_some]
      rcases Lane.acceptedOf_cons (l := l) a rest with ⟨e, rfl, hw, heq⟩ | ⟨hno, heq⟩
      · rw [heq] at hlines
        rcases Lane.after_of_starved (k := k) (j := j) (p := p) ha hw hstarved
          (hlines e List.mem_cons_self) with ⟨⟨first, hfirst⟩, hskipped⟩
        have hstarved' : ¬ (l.after k j (.emit e)).Ample := by
          rw [Lane.Ample, hs]
          exact not_or.mpr ⟨hskipped, (not_or.mp hstarved).2⟩
        rcases ih _ _ _ hj h' ha' hstarved' (fun e' he' =>
          hlines e' (List.mem_cons_of_mem e (hsame ▸ he'))) with ⟨more, hmore⟩
        exact ⟨first ++ more, by rw [hmore, hfirst, List.map_append, List.append_assoc]⟩
      · rcases Lane.after_of_unaccepted (k := k) (j := j) (p := p) hno with ⟨hplaced, _, hskipped⟩
        have hstarved' : ¬ (l.after k j a).Ample := by
          rw [Lane.Ample, hskipped, hs]
          exact hstarved
        rcases ih _ _ _ hj h' ha' hstarved' (fun e' he' => hlines e' (heq ▸ hsame ▸ he'))
          with ⟨lines, hrest⟩
        exact ⟨lines, by rw [hrest, hplaced]⟩

/-- None of these actions closes a lane. -/
theorem attended_follow (k : Nat) (actions : List LaneAction) (now : Lanes) (p : Passage)
    (l : Lane) (hl : now.1[k]? = some l) (h : Accounted l p) (ha : l.state = .attended) :
    ∃ l', (actions.foldl LaneAction.apply now).1[k]? = some l' ∧ l'.state = .attended := by
  induction actions generalizing now p l with
  | nil => exact ⟨l, hl, ha⟩
  | cons a rest ih =>
      rcases apply_lane now a k with ⟨j, hj⟩
      rw [hl, Option.map_some] at hj
      rcases accounted_after h ha k j a with ⟨h', ha', _⟩
      exact ih _ _ _ hj h' ha'

/-- An emission reaches a lane after those before it, and goes on to the others
    with the journal that the lane leaves. -/
theorem emit_append {l : Lane} {e : Event} (hw : l.accepts e.kind = true)
    (before behind : List Lane) (j : Journal) :
    emit (before ++ l :: behind) e j
      = ((emit before e j).1 ++ (l.deliver e (emit before e j).2).1
            :: (emit behind e (l.deliver e (emit before e j).2).2).1,
          (emit behind e (l.deliver e (emit before e j).2).2).2) := by
  induction before generalizing j with
  | nil =>
      simp only [List.nil_append, emit, if_pos hw]
  | cons first rest ih =>
      rw [List.cons_append, emit, emit]
      dsimp only
      rw [ih, List.cons_append]

/-- At any time, and in any lane, an accepted event that meets an empty queue is
    queued behind a marker for the lines that are missing, none is missing then,
    and nothing is reported, if and only if no line was missing or the lane has
    room for two. In that case nothing more is left out for as long as the
    subscriber keeps up; otherwise no line is placed any more for as long as
    nothing but lines come, whether it keeps up or not. -/
theorem recovers_iff (subscribers : List Subscriber) (j : Journal)
    (k : Fin subscribers.length) (earlier : List LaneAction) :
    let start := freshLanes subscribers j
    let now := earlier.foldl LaneAction.apply start
    let p := Passage.follow k start {} earlier
    ∃ before l behind, now.1 = before ++ l :: behind ∧ before.length = k.val ∧
      l.subscriber = subscribers.get k ∧
      (∀ e, l.accepts e.kind = true → l.queue = [] →
        let turn := l.deliver e (emit before e now.2).2
        let rest := emit behind e turn.2
        emit now.1 e now.2 = ((emit before e now.2).1 ++ turn.1 :: rest.1, rest.2) ∧
          (l.Catches e (emit before e now.2).2
            ↔ l.skipped = 0 ∨ 2 ≤ (subscribers.get k).capacity)) ∧
      (∀ later, (l.skipped = 0 ∨ 2 ≤ (subscribers.get k).capacity) → KeepsUp k now later →
        (p.follow k now later).placed
          = p.placed ++ (if l.acceptedOf later = [] then [] else l.owed)
            ++ ((l.acceptedOf later).zipIdx p.accepted.length).map
              (fun x => Placement.passed x.2 x.1) ∧
        ∃ l', (later.foldl LaneAction.apply now).1[k.val]? = some l' ∧
          l'.skipped = if l.acceptedOf later = [] then l.skipped else 0) ∧
      (∀ later, ¬ (l.skipped = 0 ∨ 2 ≤ (subscribers.get k).capacity) →
        (∀ e ∈ l.acceptedOf later, e.notice.isLine = true) →
        ∃ lines : List Nat, (p.follow k now later).placed = p.placed ++ lines.map .marker) := by
  intro start now p
  have hfresh : start.1[k.val]? = some { subscriber := subscribers.get k } := by
    simp [start, freshLanes]
  have hempty : Accounted { subscriber := subscribers.get k } {} :=
    ⟨Ledger.empty, .nil, Nat.zero_le _⟩
  rcases accounted_follow k earlier start {} _ hfresh hempty rfl
    with ⟨_, l, hl, hsubscriber, haccounted⟩
  rcases attended_follow k earlier start {} _ hfresh hempty rfl with ⟨l', hl', ha⟩
  cases Option.some.inj (hl.symm.trans hl')
  have hl : now.1[k.val]? = some l := hl
  rcases List.getElem?_eq_some_iff.mp hl with ⟨hlt, hget⟩
  have hnow : now.1 = now.1.take k ++ l :: now.1.drop (k + 1) := by
    rw [← hget, List.getElem_cons_drop, List.take_append_drop]
  -- Room for two is a matter of the subscriber and not of the time.
  have hample : l.Ample ↔ l.skipped = 0 ∨ 2 ≤ (subscribers.get k).capacity := by
    rw [Lane.Ample, hsubscriber]
  refine ⟨now.1.take k, l, now.1.drop (k + 1), hnow, ?_, hsubscriber, ?_, ?_, ?_⟩
  · rw [List.length_take, Nat.min_eq_left (Nat.le_of_lt hlt)]
  · intro e hw hqueue turn rest
    refine ⟨?_, (Lane.catches_iff ha hqueue).trans hample⟩
    exact (congrArg (fun lanes => emit lanes e now.2) hnow).trans (emit_append hw _ _ now.2)
  · intro later hroom hkeeps
    exact caught_follow k later now p l hl haccounted ha (hample.mpr hroom) hkeeps
  · intro later hroom hlines
    exact starved_follow k later now p l hl haccounted ha (fun h => hroom (hample.mp h)) hlines

/-- Room for one line only, and the line before it is being handled: of two more
    lines one is left out. Then all that is queued is handled. -/
def oneLeftOut (line : Event) : List LaneAction :=
  [.emit line, .take 0, .emit line, .emit line, .handle 0, .take 0, .handle 0]

/-- The next line finds the queue empty, and is left out as well. -/
theorem not_always_caught :
    ¬ ∀ (subscribers : List Subscriber) (j : Journal) (earlier : List LaneAction) (e : Event)
        (before behind : List Lane) (l : Lane),
      let now := earlier.foldl LaneAction.apply (freshLanes subscribers j)
      now.1 = before ++ l :: behind → l.queue = [] → l.accepts e.kind = true →
      l.Catches e (emit before e now.2).2 := by
  intro h
  have hcaught := h [{ name := "live", capacity := 1 }] { bus := .ofCapacity 1 }
    (oneLeftOut ⟨0, { kind := .compileOutput }⟩) ⟨0, { kind := .compileOutput }⟩ [] [] _
    rfl rfl rfl
  exact absurd hcaught.skipped (by decide)

end SoftPlc
