import SoftPlc.Proofs.Lane.Fates
import SoftPlc.Proofs.Lane.Gaps

/-!
# What is noted of a set of lanes

Whatever happens to a set of lanes, events are delivered to them, and events are
handed to their subscribers. A docket notes both beside the lanes, each with the
lane as it was at that moment. That is enough to tell everything else: what is
reported of a delivery or of a panic follows from it as well (`Docket.Told`).

A lane sees little of what happens to the set. An emission reaches it as if it
were the only one, except for the journal, which decides about the number of a
marker and nothing else; and what is done to another lane does not reach it at
all. `Lane.Fares` says once what can happen to a lane, and what is noted of
that. Whatever holds of a lane along a run is proved from it, by
`Docket.lane_after`.

## Main definitions

* `LaneTurn`: Something that happens to a set of lanes.
* `Handover`: An event that a worker has handed to its subscriber.
* `Docket`: The lanes, with what was noted of them.
* `LaneView`: What a lane sees of a turn.
* `Lane.Fares`: What becomes of a lane.
* `Docket.Staffed`: What is noted is about the lane at its place.

## Theorems

* `emit_place`: What an emission is to one lane of many.
* `Docket.fares_see`: What becomes of one lane in a turn.
* `Docket.lane_after`: What holds of a lane along a run.
* `Docket.staffed_after`: Each subscriber keeps its lane.
-/

namespace SoftPlc

/-- Something that happens to a set of lanes, their end included. -/
inductive LaneTurn where
  | act (action : LaneAction)
  /-- Nothing more is queued for a lane. -/
  | close (lane : Nat)
  /-- The worker of a lane is destroyed. -/
  | abandon (lane : Nat)
  deriving Repr

/-- An event that a worker has handed to its subscriber. -/
structure Handover where
  /-- The place of the lane among the others. -/
  index : Nat
  subscriber : Subscriber
  event : Event

/-- The event that a worker hands over, if it has one in hand. -/
def Lane.handovers (l : Lane) (place : Nat) : List Handover :=
  l.inHand.toList.map fun e => ⟨place, l.subscriber, e⟩

/-- The deliveries that an emission consists of, with the place of the first
    lane given. -/
def deliveriesFrom (place : Nat) : List Lane → Event → Journal → List Delivery
  | [], _, _ => []
  | l :: rest, e, j =>
    if l.accepts e.kind then
      ⟨place, e, l, j⟩ :: deliveriesFrom (place + 1) rest e (l.deliver e j).2
    else deliveriesFrom (place + 1) rest e j

/-- What a lane sees of what happens to the set. -/
inductive LaneView where
  | emit (e : Event)
  | take
  | handle
  | close
  | abandon
  deriving DecidableEq, Repr

/-- The event that is emitted, if one is. -/
def LaneView.emitted? : LaneView → Option Event
  | emit e => some e
  | _ => none

namespace LaneTurn

/-- What a turn makes of the lanes. -/
def apply (now : Lanes) : LaneTurn → Lanes
  | act action => action.apply now
  | close i => (now.1.modify i Lane.close, now.2)
  | abandon i => (now.1.modify i Lane.abandon, now.2)

/-- The event that is emitted, if one is. -/
def emitted? : LaneTurn → Option Event
  | act action => action.emitted?
  | _ => none

/-- What is delivered. -/
def deliveries (now : Lanes) : LaneTurn → List Delivery
  | act (.emit e) => deliveriesFrom 0 now.1 e now.2
  | _ => []

/-- What is handed over. -/
def handovers (now : Lanes) : LaneTurn → List Handover
  | act (.handle i) => now.1[i]?.elim [] (Lane.handovers · i)
  | _ => []

/-- What a lane sees of a turn. -/
def view (k : Nat) : LaneTurn → Option LaneView
  | act (.emit e) => some (.emit e)
  | act (.take i) => if i = k then some .take else none
  | act (.handle i) => if i = k then some .handle else none
  | close i => if i = k then some .close else none
  | abandon i => if i = k then some .abandon else none

/-- Each lane sees what is emitted. -/
theorem emitted_view (k : Nat) (t : LaneTurn) : (t.view k).bind LaneView.emitted? = t.emitted? := by
  have hown : ∀ (i : Nat) (v : LaneView), v.emitted? = none →
      (if i = k then some v else none).bind LaneView.emitted? = none := by
    intro i v hv
    split
    next => exact hv
    next => rfl
  cases t with
  | act action =>
      cases action with
      | emit e => rfl
      | take i => exact hown i .take rfl
      | handle i => exact hown i .handle rfl
  | close i => exact hown i .close rfl
  | abandon i => exact hown i .abandon rfl

end LaneTurn

/-- The lanes, with what was noted of them. -/
structure Docket where
  now : Lanes
  deliveries : List Delivery := []
  handovers : List Handover := []

namespace Docket

/-- Some lanes of which nothing has been noted yet. -/
def start (now : Lanes) : Docket :=
  { now }

/-- Something happens and is noted. -/
def see (d : Docket) (t : LaneTurn) : Docket where
  now := t.apply d.now
  deliveries := d.deliveries ++ t.deliveries d.now
  handovers := d.handovers ++ t.handovers d.now

/-- Several things happen in order. -/
def after (d : Docket) (turns : List LaneTurn) : Docket :=
  turns.foldl see d

/-- The deliveries to one lane. -/
def deliveredTo (d : Docket) (k : Nat) : List Delivery :=
  d.deliveries.filter fun x => x.index == k

/-- The events that the subscriber of one lane was handed. -/
def handedTo (d : Docket) (k : Nat) : List Event :=
  (d.handovers.filter fun h => h.index == k).map Handover.event

end Docket

/-- What becomes of the lane at a place, with the deliveries to it and what its
    subscriber is handed. -/
inductive Lane.Fares (l : Lane) (place : Nat) :
    Option LaneView → Lane → List Delivery → List Event → Prop where
  /-- It happens to another lane. -/
  | aside : Fares l place none l [] []
  | declined (e : Event) (h : l.accepts e.kind = false) : Fares l place (some (.emit e)) l [] []
  | delivered (e : Event) (j : Journal) (h : l.accepts e.kind = true) :
      Fares l place (some (.emit e)) (⟨place, e, l, j⟩ : Delivery).outcome.1 [⟨place, e, l, j⟩] []
  | take : Fares l place (some .take) l.take [] []
  | handle : Fares l place (some .handle) { l with inHand := none } [] l.inHand.toList
  | close : Fares l place (some .close) l.close [] []
  | abandon : Fares l place (some .abandon) l.abandon [] []

/-- A delivery is noted with the lane to which it is made. -/
theorem mem_deliveriesFrom {place : Nat} {lanes : List Lane} {e : Event} {j : Journal}
    {x : Delivery} (h : x ∈ deliveriesFrom place lanes e j) :
    ∃ i, x.index = place + i ∧ lanes[i]? = some x.lane ∧ x.event = e := by
  induction lanes generalizing place j with
  | nil => exact absurd h List.not_mem_nil
  | cons l rest ih =>
      have hbehind : (∃ i, x.index = place + 1 + i ∧ rest[i]? = some x.lane ∧ x.event = e) →
          ∃ i, x.index = place + i ∧ (l :: rest)[i]? = some x.lane ∧ x.event = e := by
        rintro ⟨i, hindex, hlane, hevent⟩
        exact ⟨i + 1, by omega, hlane, hevent⟩
      unfold deliveriesFrom at h
      split at h
      next =>
        rcases List.mem_cons.mp h with rfl | hrest
        · exact ⟨0, rfl, rfl, rfl⟩
        · exact hbehind (ih hrest)
      next => exact hbehind (ih h)

/-- There are at most as many deliveries as there are lanes. -/
theorem length_deliveriesFrom (place : Nat) (lanes : List Lane) (e : Event) (j : Journal) :
    (deliveriesFrom place lanes e j).length ≤ lanes.length := by
  induction lanes generalizing place j with
  | nil => exact Nat.le_refl 0
  | cons l rest ih =>
      unfold deliveriesFrom
      split
      next => exact Nat.succ_le_succ (ih _ _)
      next => exact Nat.le_succ_of_le (ih _ _)

/-- What an emission is to one lane of many: the delivery that is noted, and
    what the lane becomes. -/
theorem emit_place (place : Nat) {lanes : List Lane} (e : Event) (j : Journal) {k : Nat} {l : Lane}
    (hl : lanes[k]? = some l) :
    ∃ j', (emit lanes e j).1[k]? = some (if l.accepts e.kind then (l.deliver e j').1 else l) ∧
      (deliveriesFrom place lanes e j).filter (fun x => x.index == place + k)
        = if l.accepts e.kind then [⟨place + k, e, l, j'⟩] else [] := by
  induction lanes generalizing place j k with
  | nil => exact absurd hl.symm (Option.some_ne_none l)
  | cons first rest ih =>
      cases k with
      | zero =>
          rw [List.getElem?_cons_zero, Option.some.injEq] at hl
          -- All further deliveries are to lanes behind it.
          have hrest : ∀ j', (deliveriesFrom (place + 1) rest e j').filter
              (fun x => x.index == place) = [] := by
            intro j'
            refine List.filter_eq_nil_iff.mpr fun x hx hindex => ?_
            rcases mem_deliveriesFrom hx with ⟨i, hi, _⟩
            have hplace := beq_iff_eq.mp hindex
            omega
          refine ⟨j, ?_, ?_⟩
          · rw [emit, List.getElem?_cons_zero, hl]
            split
            next => rfl
            next => rfl
          · rw [deliveriesFrom, hl, Nat.add_zero]
            split
            next => simp only [List.filter_cons, beq_self_eq_true, if_true, hrest]
            next => exact hrest j
      | succ k =>
          rw [List.getElem?_cons_succ] at hl
          have hplace : place + (k + 1) = place + 1 + k := by omega
          have hother : (place == place + 1 + k) = false := beq_false_of_ne (by omega)
          rw [emit, deliveriesFrom, hplace]
          dsimp only
          rw [List.getElem?_cons_succ]
          split
          next =>
            simp only [List.filter_cons, hother, Bool.false_eq_true, if_false]
            exact ih (place + 1) _ hl
          next => exact ih (place + 1) j hl

theorem Lane.subscriber_deliver (l : Lane) (e : Event) (j : Journal) :
    (l.deliver e j).1.subscriber = l.subscriber := by
  rcases l.settled_eq e j (l.fate e) with ⟨entries, skipped, heq⟩
  rw [Lane.deliver_fate, heq]

theorem Lane.subscriber_take (l : Lane) : l.take.subscriber = l.subscriber := by
  unfold Lane.take
  split
  next => rfl
  next => rfl

theorem Lane.subscriber_close (l : Lane) : l.close.subscriber = l.subscriber := by
  unfold Lane.close
  split
  next => rfl
  next => rfl

theorem Lane.handle_eq (l : Lane) (j : Journal) : (l.handle j).1 = { l with inHand := none } := by
  unfold Lane.handle
  split
  next hnone => rw [← hnone]
  next =>
    dsimp only
    split
    next => rfl
    next => rfl

theorem Lane.events_handovers (l : Lane) (place : Nat) :
    (l.handovers place).map Handover.event = l.inHand.toList := by
  rw [Lane.handovers, List.map_map]
  exact List.map_id _

theorem LaneTurn.mem_handovers {now : Lanes} {i : Nat} {h : Handover}
    (hh : h ∈ LaneTurn.handovers now (.act (.handle i))) :
    h.index = i ∧ ∃ l, now.1[i]? = some l ∧ h.subscriber = l.subscriber := by
  dsimp only [LaneTurn.handovers] at hh
  cases hi : now.1[i]? with
  | none =>
      rw [hi] at hh
      exact absurd hh List.not_mem_nil
  | some l =>
      rw [hi] at hh
      rcases List.mem_map.mp hh with ⟨e, _, rfl⟩
      exact ⟨rfl, l, rfl, rfl⟩

/-- A subscriber is handed what its own worker has in hand. -/
theorem LaneTurn.handed_to {now : Lanes} {k : Nat} {l : Lane} (hl : now.1[k]? = some l) (i : Nat) :
    ((LaneTurn.handovers now (.act (.handle i))).filter fun h => h.index == k).map Handover.event
      = if i = k then l.inHand.toList else [] := by
  split
  next hik =>
    have hall : ∀ h ∈ LaneTurn.handovers now (.act (.handle i)), (h.index == k) = true :=
      fun h hh => beq_iff_eq.mpr ((LaneTurn.mem_handovers hh).1.trans hik)
    rw [List.filter_eq_self.mpr hall]
    dsimp only [LaneTurn.handovers]
    rw [hik, hl, Option.elim_some, l.events_handovers]
  next hik =>
    have hnone : (LaneTurn.handovers now (.act (.handle i))).filter (fun h => h.index == k) = [] :=
      List.filter_eq_nil_iff.mpr fun h hh hindex =>
        hik ((LaneTurn.mem_handovers hh).1.symm.trans (beq_iff_eq.mp hindex))
    rw [hnone, List.map_nil]

namespace Docket

variable {d : Docket} {k : Nat} {l : Lane}

/-- What becomes of one lane in a turn, and what is noted of it. -/
theorem fares_see (hl : d.now.1[k]? = some l) (t : LaneTurn) :
    ∃ l' xs es, (d.see t).now.1[k]? = some l' ∧
      (d.see t).deliveredTo k = d.deliveredTo k ++ xs ∧
      (d.see t).handedTo k = d.handedTo k ++ es ∧ l.Fares k (t.view k) l' xs es := by
  have hdelivered : (d.see t).deliveredTo k
      = d.deliveredTo k ++ (t.deliveries d.now).filter fun x => x.index == k :=
    List.filter_append _ _
  have hhanded : (d.see t).handedTo k = d.handedTo k
      ++ ((t.handovers d.now).filter fun h => h.index == k).map Handover.event := by
    rw [handedTo, see, List.filter_append, List.map_append]
    rfl
  rw [hdelivered, hhanded]
  -- What is done to a lane at a place is done to this one or to another.
  have hmodify : ∀ (i : Nat) (f : Lane → Lane),
      (d.now.1.modify i f)[k]? = some (if i = k then f l else l) := by
    intro i f
    rw [List.getElem?_modify, hl]
    split
    next => rfl
    next => rfl
  cases t with
  | act action =>
      cases action with
      | emit e =>
          rcases emit_place 0 e d.now.2 hl with ⟨j, hlane, hnoted⟩
          rw [Nat.zero_add] at hnoted
          refine ⟨_, _, _, hlane, rfl, rfl, ?_⟩
          dsimp only [LaneTurn.deliveries, LaneTurn.handovers, LaneTurn.view]
          rw [hnoted]
          cases haccepts : l.accepts e.kind with
          | true => exact .delivered e j haccepts
          | false => exact .declined e haccepts
      | take i =>
          refine ⟨_, _, _, hmodify i Lane.take, rfl, rfl, ?_⟩
          rw [LaneTurn.view]
          split
          next => exact .take
          next => exact .aside
      | handle i =>
          rcases apply_lane d.now (.handle i) k with ⟨j, hlane⟩
          rw [hl, Option.map_some, Lane.after, l.handle_eq] at hlane
          refine ⟨_, _, _, hlane, rfl, rfl, ?_⟩
          rw [LaneTurn.handed_to hl i, LaneTurn.view]
          split
          next => exact .handle
          next => exact .aside
  | close i =>
      refine ⟨_, _, _, hmodify i Lane.close, rfl, rfl, ?_⟩
      rw [LaneTurn.view]
      split
      next => exact .close
      next => exact .aside
  | abandon i =>
      refine ⟨_, _, _, hmodify i Lane.abandon, rfl, rfl, ?_⟩
      rw [LaneTurn.view]
      split
      next => exact .abandon
      next => exact .aside

/-- The views of the turns before are kept, for the induction. -/
theorem lane_from {P : List LaneView → Lane → List Delivery → List Event → Prop}
    (hstep : ∀ views l xs es v l' xs' es', P views l xs es → l.Fares k v l' xs' es' →
      P (views ++ v.toList) l' (xs ++ xs') (es ++ es'))
    (views : List LaneView) (hl : d.now.1[k]? = some l)
    (h : P views l (d.deliveredTo k) (d.handedTo k)) (turns : List LaneTurn) :
    ∃ l', (d.after turns).now.1[k]? = some l' ∧
      P (views ++ turns.filterMap (LaneTurn.view k)) l' ((d.after turns).deliveredTo k)
        ((d.after turns).handedTo k) := by
  induction turns generalizing d l views with
  | nil =>
      rw [List.filterMap_nil, List.append_nil]
      exact ⟨l, hl, h⟩
  | cons t rest ih =>
      rcases fares_see hl t with ⟨l', xs, es, hl', hxs, hes, hfares⟩
      have hnext := hstep _ _ _ _ _ _ _ _ h hfares
      rw [← hxs, ← hes] at hnext
      rcases ih _ hl' hnext with ⟨last, hlast, hrest⟩
      have hviews : (t :: rest).filterMap (LaneTurn.view k)
          = (t.view k).toList ++ rest.filterMap (LaneTurn.view k) := by
        cases hview : t.view k with
        | none =>
            rw [List.filterMap_cons_none hview]
            rfl
        | some v =>
            rw [List.filterMap_cons_some hview]
            rfl
      refine ⟨last, hlast, ?_⟩
      rw [hviews, ← List.append_assoc]
      exact hrest

/-- What each thing that can become of a lane preserves holds of it along a
    run. -/
theorem lane_after {P : List LaneView → Lane → List Delivery → List Event → Prop}
    (hstep : ∀ views l xs es v l' xs' es', P views l xs es → l.Fares k v l' xs' es' →
      P (views ++ v.toList) l' (xs ++ xs') (es ++ es'))
    (hl : d.now.1[k]? = some l) (h : P [] l (d.deliveredTo k) (d.handedTo k))
    (turns : List LaneTurn) :
    ∃ l', (d.after turns).now.1[k]? = some l' ∧
      P (turns.filterMap (LaneTurn.view k)) l' ((d.after turns).deliveredTo k)
        ((d.after turns).handedTo k) :=
  lane_from hstep [] hl h turns

end Docket

/-- A lane keeps its subscriber, whatever becomes of it. -/
theorem Lane.Fares.subscriber {l l' : Lane} {k : Nat} {v : Option LaneView} {xs : List Delivery}
    {es : List Event} (h : l.Fares k v l' xs es) : l'.subscriber = l.subscriber := by
  cases h with
  | aside => rfl
  | declined e h => rfl
  | delivered e j h => exact l.subscriber_deliver e j
  | take => exact l.subscriber_take
  | handle => rfl
  | close => exact l.subscriber_close
  | abandon => rfl

/-- An event that is emitted changes no subscriber. -/
theorem staff_emit (lanes : List Lane) (e : Event) (j : Journal) :
    (emit lanes e j).1.map Lane.subscriber = lanes.map Lane.subscriber := by
  induction lanes generalizing j with
  | nil => rfl
  | cons l rest ih =>
      rw [emit]
      dsimp only
      rw [List.map_cons, List.map_cons, ih]
      split
      next => rw [l.subscriber_deliver e j]
      next => rfl

/-- A change to one lane that leaves its subscriber leaves all of them. -/
theorem staff_modify (lanes : List Lane) (i : Nat) {f : Lane → Lane}
    (hf : ∀ l, (f l).subscriber = l.subscriber) :
    (lanes.modify i f).map Lane.subscriber = lanes.map Lane.subscriber := by
  refine List.ext_getElem? fun k => ?_
  rw [List.getElem?_map, List.getElem?_map, List.getElem?_modify]
  cases lanes[k]? with
  | none => rfl
  | some l =>
      rw [Option.map_eq_map, Option.map_some, Option.map_some, Option.map_some]
      split
      next => rw [hf l]
      next => rfl

/-- Nor does anything else that happens to lanes. -/
theorem staff_apply (now : Lanes) (t : LaneTurn) :
    (t.apply now).1.map Lane.subscriber = now.1.map Lane.subscriber := by
  cases t with
  | act action =>
      cases action with
      | emit e => exact staff_emit now.1 e now.2
      | take i => exact staff_modify now.1 i Lane.subscriber_take
      | handle i =>
          rw [LaneTurn.apply, LaneAction.apply]
          cases hi : now.1[i]? with
          | none => rfl
          | some l =>
              dsimp only
              rcases List.getElem?_eq_some_iff.mp hi with ⟨hlt, rfl⟩
              have hin : i < (now.1.map Lane.subscriber).length := by rwa [List.length_map]
              have hsame : (now.1[i].handle now.2).1.subscriber
                  = (now.1.map Lane.subscriber)[i] := by
                rw [Lane.handle_eq, List.getElem_map]
              rw [List.map_set, hsame]
              exact List.set_getElem_self _
  | close i => exact staff_modify now.1 i Lane.subscriber_close
  | abandon i => exact staff_modify now.1 i fun _ => rfl

namespace Docket

variable {subscribers : List Subscriber} {d : Docket}

/-- Each subscriber keeps its lane, and whatever was noted is about the lane at
    that place. -/
structure Staffed (subscribers : List Subscriber) (d : Docket) : Prop where
  staff : d.now.1.map Lane.subscriber = subscribers
  deliveries : ∀ x ∈ d.deliveries, subscribers[x.index]? = some x.lane.subscriber
  handovers : ∀ h ∈ d.handovers, subscribers[h.index]? = some h.subscriber

/-- The lane at a place is the lane of the subscriber at that place. -/
theorem Staffed.at (h : Staffed subscribers d) {k : Nat} {l : Lane} (hl : d.now.1[k]? = some l) :
    subscribers[k]? = some l.subscriber := by
  rw [← h.staff, List.getElem?_map, hl, Option.map_some]

/-- Whatever happens, each subscriber keeps its lane. -/
theorem Staffed.see (h : Staffed subscribers d) (t : LaneTurn) : Staffed subscribers (d.see t) where
  staff := (staff_apply d.now t).trans h.staff
  deliveries := by
    intro x hx
    rcases List.mem_append.mp hx with hold | hnew
    · exact h.deliveries x hold
    · unfold LaneTurn.deliveries at hnew
      split at hnew
      next =>
        rcases mem_deliveriesFrom hnew with ⟨i, hindex, hlane, _⟩
        rw [hindex, Nat.zero_add]
        exact h.at hlane
      next => exact absurd hnew List.not_mem_nil
  handovers := by
    intro x hx
    rcases List.mem_append.mp hx with hold | hnew
    · exact h.handovers x hold
    · cases t with
      | act action =>
          cases action with
          | emit e => exact absurd hnew List.not_mem_nil
          | take i => exact absurd hnew List.not_mem_nil
          | handle i =>
              rcases LaneTurn.mem_handovers hnew with ⟨hindex, l, hl, hsubscriber⟩
              rw [hindex, hsubscriber]
              exact h.at hl
      | close i => exact absurd hnew List.not_mem_nil
      | abandon i => exact absurd hnew List.not_mem_nil

/-- Each subscriber keeps its lane over a whole run. -/
theorem Staffed.after (h : Staffed subscribers d) (turns : List LaneTurn) :
    Staffed subscribers (d.after turns) := by
  induction turns generalizing d with
  | nil => exact h
  | cons t rest ih => exact ih (h.see t)

/-- A run that begins with some lanes has the same subscribers at its end, in
    the same places. -/
theorem staffed_after (now : Lanes) (turns : List LaneTurn) :
    Staffed (now.1.map Lane.subscriber) ((start now).after turns) := by
  have hstart : Staffed (now.1.map Lane.subscriber) (start now) :=
    ⟨rfl, fun _ hx => absurd hx List.not_mem_nil, fun _ hh => absurd hh List.not_mem_nil⟩
  exact hstart.after turns

end Docket

end SoftPlc
