import Mathlib.Data.List.Induction
import SoftPlc.Proofs.Lane.Delivery

/-!
# Every line is accounted for

A subscriber that cannot keep up misses lines, but it can tell how many, and
where. Write down what was ever placed in its queue, replace each marker by as
many blanks as it has lines, and put a blank at the end for each line that
still waits for a marker. What is then left of the lines is the list of all
lines the lane accepted, with some of them blanked out, and every other event
stands between the same two lines as when it was handed over.

`Ledger` says this of three things only: what was accepted, what was placed,
and how many lines wait for a marker. A lane does one of four things with an
event, possibly after a marker, and each of them keeps the ledger, whatever
the queue looks like. What the queue holds comes in with `Accounted`, which
also says that the placements are about real entries. Taking an entry moves it
from the queue to what was taken and changes nothing that was ever placed.

## Main definitions

* `LaneAction`: Something that happens to a set of lanes.
* `Passage`: What has gone through one lane of a set.
* `Passage.follow`: The passage of one lane along some actions.
* `Ledger`: The lines are accounted for.
* `Accounted`: They are, and the placements are what the queue has held.

## Theorems

* `Ledger.mark`, `Ledger.pass`, `Ledger.skip`, `Ledger.lose`: The four things
  that a delivery does.
* `accounted_deliver`: A delivery keeps the account.
* `accounted_after`: So does every action.
* `accounted_follow`: So does any number of actions.
* `lines_accounted`: So every lane of every set is accounted for at any time.
-/

namespace SoftPlc

/-- A set of lanes, with the journal that their events go to. -/
abbrev Lanes := List Lane × Journal

/-- Something that happens to a set of lanes. -/
inductive LaneAction where
  /-- An event is handed to all of them. -/
  | emit (e : Event)
  /-- The worker of a lane takes an event off its queue. -/
  | take (lane : Nat)
  /-- The worker of a lane hands over the event it has taken. -/
  | handle (lane : Nat)
  deriving Repr

namespace LaneAction

/-- What an action makes of the lanes. -/
def apply (now : Lanes) : LaneAction → Lanes
  | emit e => SoftPlc.emit now.1 e now.2
  | take i => (now.1.modify i Lane.take, now.2)
  | handle i =>
    match now.1[i]? with
    | none => now
    | some l =>
      let (l, j) := l.handle now.2
      (now.1.set i l, j)

/-- The event that is handed over, if one is. -/
def emitted? : LaneAction → Option Event
  | emit e => some e
  | _ => none

end LaneAction

/-- Lanes for some subscribers, with nothing in them yet. -/
def freshLanes (subscribers : List Subscriber) (j : Journal) : Lanes :=
  (subscribers.map fun s => { subscriber := s }, j)

/-- What has gone through a lane. -/
structure Passage where
  /-- The events the lane accepted, in order. -/
  accepted : List Event := []
  /-- What was ever placed in its queue, in order. -/
  placed : List Placement := []
  /-- What its worker has taken, in order. -/
  taken : List Event := []

/-- The event that the worker takes next, if it can take one. -/
def Lane.nextTaken (l : Lane) : List Event :=
  match l.inHand with
  | none => l.queue.take 1
  | some _ => []

/-- What an action adds to the passage of lane `k`, the lane before it given. -/
def Passage.note (p : Passage) (k : Nat) (l : Lane) : LaneAction → Passage
  | .emit e =>
    if l.accepts e.kind then
      { p with
        accepted := p.accepted ++ [e]
        placed := p.placed ++ l.placements p.accepted.length e }
    else p
  | .take i => if i = k then { p with taken := p.taken ++ l.nextTaken } else p
  | .handle _ => p

/-- What has gone through lane `k` after some more actions. -/
def Passage.follow (k : Nat) : Lanes → Passage → List LaneAction → Passage
  | _, p, [] => p
  | now, p, a :: rest =>
    follow k (a.apply now) (now.1[k]?.elim p fun l => p.note k l a) rest

/-- The positions of the lines in a list of events. -/
def linePositions (es : List Event) : List Nat :=
  (es.zipIdx.filter fun e => e.1.notice.isLine).map Prod.snd

namespace Placement

/-- The lines a placement stands for: a line itself, by its position, or as
    many blanks as a marker has lines. -/
def slots : Placement → List (Option Nat)
  | passed position e => if e.notice.isLine then [some position] else []
  | marker lines => List.replicate lines none

/-- The position of an event handed over. -/
def position? : Placement → Option Nat
  | passed position _ => some position
  | marker _ => none

end Placement

/-- A blank stands for any line, anything else for itself. -/
def StandsFor (slot : Option Nat) (position : Nat) : Prop :=
  slot = none ∨ slot = some position

/-- The lines among the accepted events are accounted for by what was placed
    and by the lines that wait for a marker. -/
structure Ledger (accepted : List Event) (placed : List Placement) (waiting : Nat) : Prop where
  /-- What was placed without being a marker was accepted. -/
  known : ∀ position e, .passed position e ∈ placed → accepted[position]? = some e
  /-- Each accepted event was placed at most once, and in order. -/
  ordered : (placed.filterMap Placement.position?).Pairwise (· < ·)
  /-- The lines that were placed, with blanks for the others, are the lines
      that were accepted. -/
  lines : List.Forall₂ StandsFor (placed.flatMap Placement.slots ++ List.replicate waiting none)
    (linePositions accepted)
  /-- Any other event has as many lines before it as when it was accepted. -/
  between : ∀ before position e, before ++ [.passed position e] <+: placed →
    ¬ e.notice.isLine → (before.flatMap Placement.slots).length
      = (accepted.take position).countP fun e => e.notice.isLine
  /-- No marker is for nothing. -/
  marked : ∀ lines, .marker lines ∈ placed → 1 ≤ lines

/-- The ledger of a lane is right, and is about what its queue has held. -/
structure Accounted (l : Lane) (p : Passage) : Prop where
  ledger : Ledger p.accepted p.placed l.skipped
  /-- What was placed is what was taken and what is queued. -/
  shown : List.Forall₂ (Placement.Shows l.subscriber.name) p.placed (p.taken ++ l.queue)
  /-- The queue holds no more than it may. -/
  bounded : l.queue.length ≤ l.capacity

theorem linePositions_concat (es : List Event) (e : Event) :
    linePositions (es ++ [e])
      = linePositions es ++ if e.notice.isLine then [es.length] else [] := by
  by_cases hl : e.notice.isLine <;> simp [linePositions, List.zipIdx_append, hl]

theorem length_linePositions (es : List Event) :
    (linePositions es).length = es.countP fun e => e.notice.isLine := by
  induction es using List.reverseRecOn with
  | nil => rfl
  | append_singleton es e ih =>
      rw [linePositions_concat, List.length_append, ih, List.countP_append]
      by_cases hl : e.notice.isLine <;> simp [hl]

namespace Ledger

variable {accepted : List Event} {placed : List Placement} {waiting : Nat}

/-- Nothing has been accepted, and nothing is missing. -/
theorem empty : Ledger [] [] 0 where
  known := fun _ _ h => absurd h List.not_mem_nil
  ordered := .nil
  lines := .nil
  between := fun before position e h => by
    have := h.length_le
    simp only [List.length_append, List.length_singleton, List.length_nil] at this
    omega
  marked := fun _ h => absurd h List.not_mem_nil

/-- An event that was placed has its position among those accepted. -/
theorem lt_length (h : Ledger accepted placed waiting) (position : Nat) (e : Event)
    (hm : .passed position e ∈ placed) : position < accepted.length := by
  have hk := h.known position e hm
  exact (List.getElem?_eq_some_iff.mp hk).1

/-- The lines that wait get their marker. -/
theorem mark (h : Ledger accepted placed waiting) (hw : waiting ≠ 0) :
    Ledger accepted (placed ++ [.marker waiting]) 0 where
  known := by
    intro position e hm
    rcases List.mem_append.mp hm with hm | hm
    · exact h.known position e hm
    · exact absurd (List.mem_singleton.mp hm) (by simp only [reduceCtorEq, not_false_eq_true])
  ordered := by
    rw [List.filterMap_append, show List.filterMap Placement.position? [.marker waiting] = [] from rfl,
      List.append_nil]
    exact h.ordered
  lines := by
    simpa [Placement.slots] using h.lines
  between := by
    intro before position e hp hl
    rcases List.prefix_concat_iff.mp hp with hp | hp
    · exact absurd (List.append_inj' hp rfl).2
        (by simp only [List.cons.injEq, reduceCtorEq, and_true, not_false_eq_true])
    · exact h.between before position e hp hl
  marked := by
    intro lines hm
    rcases List.mem_append.mp hm with hm | hm
    · exact h.marked lines hm
    · have : lines = waiting := by simpa using hm
      omega

/-- What is said of earlier events stays true when one more is accepted. -/
theorem known_concat (h : Ledger accepted placed waiting) (e : Event) (position : Nat)
    (e' : Event) (hm : .passed position e' ∈ placed) :
    (accepted ++ [e])[position]? = some e' := by
  rw [List.getElem?_append_left (h.lt_length position e' hm)]
  exact h.known position e' hm

theorem between_concat (h : Ledger accepted placed waiting) (e : Event)
    (before : List Placement) (position : Nat) (e' : Event)
    (hp : before ++ [.passed position e'] <+: placed) (hl : ¬ e'.notice.isLine) :
    (before.flatMap Placement.slots).length
      = ((accepted ++ [e]).take position).countP fun e => e.notice.isLine := by
  have hm : .passed position e' ∈ placed := hp.subset (by simp)
  rw [List.take_append_of_le_length (Nat.le_of_lt (h.lt_length position e' hm))]
  exact h.between before position e' hp hl

/-- An event is accepted and placed, no line waiting for a marker. -/
theorem pass (h : Ledger accepted placed 0) (e : Event) :
    Ledger (accepted ++ [e]) (placed ++ [.passed accepted.length e]) 0 where
  known := by
    intro position e' hm
    rcases List.mem_append.mp hm with hm | hm
    · exact h.known_concat e position e' hm
    · rcases Placement.passed.inj (List.mem_singleton.mp hm) with ⟨rfl, rfl⟩
      exact List.getElem?_concat_length
  ordered := by
    rw [List.filterMap_append, List.pairwise_append]
    refine ⟨h.ordered, by simp [Placement.position?], ?_⟩
    intro a ha b hb
    rcases List.mem_filterMap.mp ha with ⟨x, hx, hxa⟩
    have hb : b = accepted.length := by simpa [Placement.position?] using hb
    cases x with
    | marker lines => simp [Placement.position?] at hxa
    | passed position e' =>
        have ha : position = a := by simpa [Placement.position?] using hxa
        -- All that was placed was accepted before, so the new position is the last.
        have hlt := h.lt_length position e' hx
        omega
  lines := by
    have hlines := h.lines
    rw [List.replicate_zero, List.append_nil] at hlines ⊢
    rw [linePositions_concat, List.flatMap_append]
    refine List.rel_append hlines ?_
    by_cases hl : e.notice.isLine
    · simp [Placement.slots, hl, StandsFor]
    · simp [Placement.slots, hl]
  between := by
    intro before position e' hp hl
    rcases List.prefix_concat_iff.mp hp with hp | hp
    · -- The new event itself: every line accepted so far stands before it.
      rcases List.append_inj' hp rfl with ⟨rfl, hx⟩
      rcases Placement.passed.inj (List.singleton_inj.mp hx) with ⟨rfl, rfl⟩
      have hlen := h.lines.length_eq
      rw [List.replicate_zero, List.append_nil, length_linePositions] at hlen
      rw [hlen, List.take_left]
    · exact h.between_concat e before position e' hp hl
  marked := by
    intro lines hm
    rcases List.mem_append.mp hm with hm | hm
    · exact h.marked lines hm
    · exact absurd (List.mem_singleton.mp hm) (by simp only [reduceCtorEq, not_false_eq_true])

/-- A line is accepted and left out. -/
theorem skip (h : Ledger accepted placed waiting) (e : Event) (hl : e.notice.isLine) :
    Ledger (accepted ++ [e]) placed (waiting + 1) where
  known := h.known_concat e
  ordered := h.ordered
  lines := by
    rw [linePositions_concat, if_pos hl, List.replicate_succ', ← List.append_assoc]
    exact List.rel_append h.lines (.cons (.inl rfl) .nil)
  between := h.between_concat e
  marked := h.marked

/-- Any other event is accepted and dropped. -/
theorem lose (h : Ledger accepted placed waiting) (e : Event) (hl : ¬ e.notice.isLine) :
    Ledger (accepted ++ [e]) placed waiting where
  known := h.known_concat e
  ordered := h.ordered
  lines := by
    rw [linePositions_concat, if_neg hl, List.append_nil]
    exact h.lines
  between := h.between_concat e
  marked := h.marked

end Ledger

/-- A delivery keeps the account of an attended lane. -/
theorem accounted_deliver {l : Lane} {p : Passage} (h : Accounted l p)
    (ha : l.state = .attended) (e : Event) (j : Journal) :
    Accounted (l.deliver e j).1
      { p with
        accepted := p.accepted ++ [e]
        placed := p.placed ++ l.placements p.accepted.length e } := by
  rcases Lane.deliver_eq l p.accepted.length e j ha with ⟨entries, heq, hshows⟩
  rw [heq]
  refine ⟨?_, ?_, ?_⟩
  · -- The marker of a gap comes first, if it fits.
    have hgap : Ledger p.accepted (p.placed ++ l.gap) (if l.gap = [] then l.skipped else 0) := by
      unfold Lane.gap
      split
      next hg => exact h.ledger.mark hg.1
      next => simpa using h.ledger
    simp only [Lane.placements, Lane.leftOut, ← List.append_assoc]
    by_cases hr : l.HasRoom
    · -- There is room behind the marker only if no line waits any more.
      have hw : (if l.gap = [] then l.skipped else 0) = 0 := by
        by_cases hg : l.gap = []
        · rw [if_pos hg]
          rw [Lane.HasRoom, hg, List.length_nil, Nat.add_zero] at hr
          by_contra hs
          rw [Lane.gap, if_pos ⟨hs, hr⟩] at hg
          exact absurd hg (List.cons_ne_nil _ _)
        · rw [if_neg hg]
      rw [hw] at hgap ⊢
      simpa [hr] using hgap.pass e
    · by_cases hl : e.notice.isLine
      · simpa [hr, hl] using hgap.skip e hl
      · simpa [hr, hl] using hgap.lose e hl
  · simpa [List.append_assoc] using List.rel_append h.shown hshows
  · have hlen := hshows.length_eq
    have hb := h.bounded
    change (l.queue ++ entries).length ≤ l.capacity
    rw [List.length_append, ← hlen, Lane.placements, List.length_append]
    by_cases hr : l.HasRoom
    · have hr' : l.queue.length + l.gap.length < l.capacity := hr
      rw [if_pos hr, List.length_singleton]
      omega
    · rw [if_neg hr, List.length_nil]
      unfold Lane.gap
      split
      next hg =>
        rw [List.length_singleton]
        omega
      next =>
        rw [List.length_nil]
        omega

/-- What an action makes of lane `k`, given the journal when its turn comes. -/
def Lane.after (l : Lane) (k : Nat) (j : Journal) : LaneAction → Lane
  | .emit e => if l.accepts e.kind then (l.deliver e j).1 else l
  | .take i => if i = k then l.take else l
  | .handle i => if i = k then (l.handle j).1 else l

/-- An action makes of each lane what it makes of that lane alone. -/
theorem apply_lane (now : Lanes) (a : LaneAction) (k : Nat) :
    ∃ j, (a.apply now).1[k]? = now.1[k]?.map fun l => l.after k j a := by
  cases a with
  | emit e => exact emit_lane now.1 e now.2 k
  | take i =>
      refine ⟨now.2, ?_⟩
      simp only [LaneAction.apply, List.getElem?_modify, Lane.after]
      by_cases hik : i = k <;> simp [hik]
  | handle i =>
      refine ⟨now.2, ?_⟩
      rcases hi : now.1[i]? with _ | l
      · by_cases hik : i = k
        · subst hik
          simp [LaneAction.apply, hi]
        · simp [LaneAction.apply, hi, Lane.after, hik]
      · simp only [LaneAction.apply, hi, List.getElem?_set, Lane.after]
        by_cases hik : i = k
        · subst hik
          rcases List.getElem?_eq_some_iff.mp hi with ⟨hlt, rfl⟩
          simp [hlt]
        · simp [hik]

/-- A worker's step on an event touches neither the queue nor the count. -/
theorem handle_lane (l : Lane) (j : Journal) :
    ∃ inHand, (l.handle j).1 = { l with inHand } := by
  unfold Lane.handle
  split
  next => exact ⟨l.inHand, rfl⟩
  next e _ => exact ⟨none, by dsimp only; split <;> rfl⟩

/-- Taking moves the next event from the queue to what was taken. -/
theorem take_lane (l : Lane) :
    ∃ queue inHand, l.take = { l with queue, inHand } ∧ l.nextTaken ++ queue = l.queue := by
  unfold Lane.take Lane.nextTaken
  split
  next e rest hh hq => exact ⟨rest, some e, rfl, by simp [hh, hq]⟩
  next hnone =>
    refine ⟨l.queue, l.inHand, rfl, ?_⟩
    split
    next hh =>
      rcases hq : l.queue with _ | ⟨e, rest⟩
      · rfl
      · exact absurd hq (hnone e rest hh)
    next => rfl

/-- Every action keeps the account of an attended lane, and leaves it attended
    and with its subscriber. -/
theorem accounted_after {l : Lane} {p : Passage} (h : Accounted l p) (ha : l.state = .attended)
    (k : Nat) (j : Journal) (a : LaneAction) :
    Accounted (l.after k j a) (p.note k l a) ∧ (l.after k j a).state = .attended ∧
      (l.after k j a).subscriber = l.subscriber := by
  cases a with
  | emit e =>
      by_cases hw : l.accepts e.kind
      · rcases Lane.deliver_eq l p.accepted.length e j ha with ⟨entries, heq, -⟩
        simp only [Lane.after, Passage.note, if_pos hw]
        exact ⟨accounted_deliver h ha e j, by rw [heq]; exact ha, by rw [heq]⟩
      · simp only [Lane.after, Passage.note, if_neg hw]
        exact ⟨h, ha, trivial⟩
  | take i =>
      by_cases hik : i = k
      · rcases take_lane l with ⟨queue, inHand, heq, hq⟩
        simp only [Lane.after, Passage.note, if_pos hik]
        rw [heq]
        refine ⟨⟨h.ledger, ?_, ?_⟩, ha, rfl⟩
        · change List.Forall₂ _ p.placed (p.taken ++ l.nextTaken ++ queue)
          rw [List.append_assoc, hq]
          exact h.shown
        · have hb := h.bounded
          rw [← hq, List.length_append] at hb
          exact Nat.le_trans (Nat.le_add_left _ _) hb
      · simp only [Lane.after, Passage.note, if_neg hik]
        exact ⟨h, ha, trivial⟩
  | handle i =>
      by_cases hik : i = k
      · rcases handle_lane l j with ⟨inHand, heq⟩
        simp only [Lane.after, Passage.note, if_pos hik]
        rw [heq]
        exact ⟨⟨h.ledger, h.shown, h.bounded⟩, ha, rfl⟩
      · simp only [Lane.after, Passage.note, if_neg hik]
        exact ⟨h, ha, trivial⟩

/-- Any number of actions keeps the account of an attended lane, and adds to
    what it accepted the events of its subscriber's liking. -/
theorem accounted_follow (k : Nat) (actions : List LaneAction) (now : Lanes) (p : Passage)
    (l : Lane) (hl : now.1[k]? = some l) (h : Accounted l p) (ha : l.state = .attended) :
    (p.follow k now actions).accepted
        = p.accepted ++ (actions.filterMap LaneAction.emitted?).filter (l.accepts ·.kind) ∧
      ∃ l', (actions.foldl LaneAction.apply now).1[k]? = some l' ∧
        l'.subscriber = l.subscriber ∧ Accounted l' (p.follow k now actions) := by
  induction actions generalizing now p l with
  | nil => exact ⟨by simp [Passage.follow], l, hl, rfl, h⟩
  | cons a rest ih =>
      rcases apply_lane now a k with ⟨j, hj⟩
      rw [hl, Option.map_some] at hj
      rcases accounted_after h ha k j a with ⟨h', ha', hs⟩
      rcases ih _ _ _ hj h' ha' with ⟨hacc, l', hl', hs', hend⟩
      have haccepts : (l.after k j a).accepts = l.accepts := by
        funext kind
        unfold Lane.accepts
        rw [hs]
      simp only [Passage.follow, hl, Option.elim_some, List.foldl_cons]
      refine ⟨?_, l', hl', hs'.trans hs, hend⟩
      rw [hacc, haccepts]
      cases a with
      | emit e =>
          by_cases hw : l.accepts e.kind <;> simp [Passage.note, LaneAction.emitted?, hw]
      | take i =>
          by_cases hik : i = k <;>
            simp [Passage.note, LaneAction.emitted?, List.filterMap_cons, hik]
      | handle i => simp [Passage.note, LaneAction.emitted?, List.filterMap_cons]

/-- At any time every lane of every set, whatever its capacity and filter and
    however emissions and workers take turns, has accepted what its subscriber
    wants, and every line among that is accounted for. -/
theorem lines_accounted (subscribers : List Subscriber) (j : Journal)
    (k : Fin subscribers.length) (actions : List LaneAction) :
    let start := freshLanes subscribers j
    let p := Passage.follow k start {} actions
    p.accepted = (actions.filterMap LaneAction.emitted?).filter
        (({ subscriber := subscribers[k] } : Lane).accepts ·.kind) ∧
      ∃ l, (actions.foldl LaneAction.apply start).1[k.val]? = some l ∧
        l.subscriber = subscribers[k] ∧ Accounted l p := by
  have hl : (freshLanes subscribers j).1[k.val]? = some { subscriber := subscribers[k] } := by
    simp [freshLanes]
  have h : Accounted { subscriber := subscribers[k] } {} :=
    ⟨Ledger.empty, .nil, Nat.zero_le _⟩
  simpa using accounted_follow k actions _ {} _ hl h rfl

/-- Room for two events, and the first of all is still being handled: of five
    lines three are left out, and are told of before the next line. -/
example :
    let line : Event := ⟨0, { kind := .compileOutput }⟩
    let other : Event := ⟨0, { kind := .runtimeStarted }⟩
    (Passage.follow 0 (freshLanes [{ name := "live", capacity := 2 }] { bus := .ofCapacity 1 }) {}
      ([.emit other, .take 0] ++ List.replicate 5 (.emit line) ++ [.handle 0, .take 0, .handle 0,
        .take 0, .emit line])).placed
      = [.passed 0 other, .passed 1 line, .passed 2 line, .marker 3, .passed 6 line] := by
  decide

end SoftPlc
