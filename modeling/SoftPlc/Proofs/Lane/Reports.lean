import SoftPlc.Proofs.Lane.Docket

/-!
# What is reported of a set of lanes

The lanes report two things on the bus: an event that was dropped, and a panic
of a subscriber. Everybody who listens sees those reports among whatever else is
published, and has nothing but them to know of a loss. So they have to be
complete, and there must be no others.

Both come from what a docket notes. A delivery is reported if that was its fate,
and an event that was handed over is reported if its subscriber met it with a
panic. What a run publishes is nothing but those, each once and in the order in
which they are noted: `Docket.told_after`. The two kinds of reports come from
two lists, so they are told apart on the bus by their kind.

## Main definitions

* `Delivery.reports`, `Handover.reports`: What is reported of either.
* `Bus.Tells`: What is published between two states of a bus.
* `Docket.Told`: What is on the bus.

## Theorems

* `tells_emit`, `tells_handle`: What one turn publishes.
* `Docket.told_after`: What is on the bus is what the docket says.
-/

namespace SoftPlc

/-- What is reported of an event that was handed over. -/
def Handover.reports (h : Handover) : List Notice :=
  match h.subscriber.reaction h.event with
  | none => []
  | some (.text message) => [.panicked h.subscriber.name message]
  | some .other => [.panicked h.subscriber.name "unknown panic"]

/-- What is reported of a delivery. -/
def Delivery.reports (x : Delivery) : List Notice :=
  match x.fate with
  | .reported reason => [.overflow x.lane.subscriber.name reason]
  | _ => []

/-- The bus after several events have been published. -/
def Bus.publishAll (b : Bus) (events : List Event) : Bus :=
  events.foldl Bus.publish b

/-- An open bus to which someone listens records what is published. -/
theorem Bus.log_publishAll {b : Bus} (hopen : b.closed = false) (hheard : b.receiverCount ≠ 0)
    (events : List Event) : (b.publishAll events).log.toList = b.log.toList ++ events := by
  induction events generalizing b with
  | nil => exact (List.append_nil _).symm
  | cons e rest ih =>
      have hpublish : b.publish e = { b with log := b.log.push e } := by
        unfold Bus.publish
        split
        next h => simp [hopen, hheard] at h
        next => rfl
      have hrest := ih (b := b.publish e) (by rw [hpublish]; exact hopen)
        (by rw [hpublish]; exact hheard)
      have hall : b.publishAll (e :: rest) = (b.publish e).publishAll rest := rfl
      rw [hall, hrest, hpublish, Array.toList_push, List.append_assoc, List.singleton_append]

/-- Some notices take the bus from one state to another. -/
def Bus.Tells (b : Bus) (notices : List Notice) (b' : Bus) : Prop :=
  ∃ events : List Event, b' = b.publishAll events ∧ events.map Event.notice = notices

namespace Bus

variable {b b' b'' : Bus} {ns ms : List Notice}

theorem Tells.nothing (b : Bus) : b.Tells [] b :=
  ⟨[], rfl, rfl⟩

theorem Tells.trans (h : b.Tells ns b') (h' : b'.Tells ms b'') : b.Tells (ns ++ ms) b'' := by
  rcases h with ⟨events, rfl, rfl⟩
  rcases h' with ⟨more, rfl, rfl⟩
  exact ⟨events ++ more, (List.foldl_append).symm, List.map_append⟩

/-- Notices that are published one after the other are told in that order. -/
theorem tells_publishAll (j : Journal) (ns : List Notice) :
    j.bus.Tells ns (j.publishAll ns).bus := by
  induction ns generalizing j with
  | nil => exact .nothing j.bus
  | cons n rest ih =>
      have hfirst : j.bus.Tells [n] (j.publish n).bus := ⟨[⟨j.next, n⟩], rfl, rfl⟩
      exact hfirst.trans (ih _)

end Bus

/-- What a delivery does to the bus is its report. -/
theorem Delivery.tells_outcome (x : Delivery) : x.journal.bus.Tells x.reports x.outcome.2.bus := by
  rw [Delivery.outcome_journal]
  exact Bus.tells_publishAll _ _

/-- Emitting an event publishes the reports of its deliveries, lane by lane, and
    nothing else. -/
theorem tells_emit (place : Nat) (lanes : List Lane) (e : Event) (j : Journal) :
    j.bus.Tells ((deliveriesFrom place lanes e j).flatMap Delivery.reports)
      (emit lanes e j).2.bus := by
  induction lanes generalizing place j with
  | nil => exact .nothing j.bus
  | cons l rest ih =>
      rw [emit, deliveriesFrom]
      split
      next =>
        rw [List.flatMap_cons]
        exact (Delivery.tells_outcome ⟨place, e, l, j⟩).trans (ih _ _)
      next => exact ih _ j

theorem Handover.reports_eq (h : Handover) :
    h.reports = (h.subscriber.reaction h.event).toList.map
      fun panic => .panicked h.subscriber.name panic.info := by
  unfold Handover.reports
  split
  next hnone =>
    rw [hnone]
    rfl
  next message htext =>
    rw [htext]
    rfl
  next hother =>
    rw [hother]
    rfl

/-- A worker publishes the report of a panic, if its subscriber does panic. -/
theorem tells_handle (l : Lane) (place : Nat) (j : Journal) :
    j.bus.Tells ((l.handovers place).flatMap Handover.reports) (l.handle j).2.bus := by
  unfold Lane.handle Lane.handovers
  split
  next hnone =>
    rw [hnone]
    exact .nothing j.bus
  next e hsome =>
    have hreports : (l.inHand.toList.map fun e => (⟨place, l.subscriber, e⟩ : Handover)).flatMap
        Handover.reports = (⟨place, l.subscriber, e⟩ : Handover).reports := by
      rw [hsome, Option.toList_some, List.map_singleton, List.flatMap_singleton]
    rw [hreports, Handover.reports_eq]
    dsimp only
    split
    next hcalm =>
      rw [hcalm]
      exact .nothing j.bus
    next panic hpanic =>
      rw [hpanic]
      exact Bus.tells_publishAll j [_]

namespace Docket

/-- What was published since the bus was in some state is what the docket says:
    a report for each loss and one for each panic, in order. -/
def Told (b : Bus) (d : Docket) : Prop :=
  ∃ notices, b.Tells notices d.now.2.bus ∧
    notices.filter Notice.isOverflow = d.deliveries.flatMap Delivery.reports ∧
    notices.filter Notice.isPanic = d.handovers.flatMap Handover.reports

end Docket

theorem Delivery.isOverflow_of_report {x : Delivery} {n : Notice} (h : n ∈ x.reports) :
    n.isOverflow = true ∧ n.isPanic = false := by
  unfold Delivery.reports at h
  split at h
  next =>
    rw [List.mem_singleton.mp h]
    exact ⟨rfl, rfl⟩
  next => exact absurd h List.not_mem_nil

/-- Handing over reports panics only, so what is reported of drops comes from
    deliveries. -/
theorem Handover.isPanic_of_report {h : Handover} {n : Notice} (hn : n ∈ h.reports) :
    n.isPanic = true ∧ n.isOverflow = false := by
  unfold Handover.reports at hn
  split at hn
  next => exact absurd hn List.not_mem_nil
  next =>
    rw [List.mem_singleton.mp hn]
    exact ⟨rfl, rfl⟩
  next =>
    rw [List.mem_singleton.mp hn]
    exact ⟨rfl, rfl⟩

namespace Docket

variable {b : Bus} {d : Docket}

/-- What a turn tells is what is noted of it. -/
theorem tells_see (d : Docket) (t : LaneTurn) :
    d.now.2.bus.Tells ((t.deliveries d.now).flatMap Delivery.reports
      ++ (t.handovers d.now).flatMap Handover.reports) (d.see t).now.2.bus := by
  cases t with
  | act action =>
      cases action with
      | emit e =>
          dsimp only [LaneTurn.deliveries, LaneTurn.handovers]
          rw [List.flatMap_nil, List.append_nil]
          exact tells_emit 0 d.now.1 e d.now.2
      | take i => exact .nothing _
      | handle i =>
          dsimp only [LaneTurn.deliveries, LaneTurn.handovers]
          rw [List.flatMap_nil, List.nil_append, see, LaneTurn.apply, LaneAction.apply]
          cases d.now.1[i]? with
          | none => exact .nothing _
          | some l => exact tells_handle l i d.now.2
  | close i => exact .nothing _
  | abandon i => exact .nothing _

/-- Whatever happens, the bus has what the docket says was reported. -/
theorem Told.see (h : d.Told b) (t : LaneTurn) : (d.see t).Told b := by
  rcases h with ⟨notices, htells, hoverflow, hpanic⟩
  have hlost : ∀ n ∈ (t.deliveries d.now).flatMap Delivery.reports,
      n.isOverflow = true ∧ n.isPanic = false := by
    intro n hn
    rcases List.mem_flatMap.mp hn with ⟨x, _, hx⟩
    exact Delivery.isOverflow_of_report hx
  have hpanicked : ∀ n ∈ (t.handovers d.now).flatMap Handover.reports,
      n.isPanic = true ∧ n.isOverflow = false := by
    intro n hn
    rcases List.mem_flatMap.mp hn with ⟨x, _, hx⟩
    exact Handover.isPanic_of_report hx
  refine ⟨_, htells.trans (d.tells_see t), ?_, ?_⟩
  · rw [List.filter_append, List.filter_append, hoverflow,
      List.filter_eq_self.mpr fun n hn => (hlost n hn).1,
      List.filter_eq_nil_iff.mpr fun n hn => Bool.eq_false_iff.mp (hpanicked n hn).2,
      List.append_nil, Docket.see, List.flatMap_append]
  · rw [List.filter_append, List.filter_append, hpanic,
      List.filter_eq_self.mpr fun n hn => (hpanicked n hn).1,
      List.filter_eq_nil_iff.mpr fun n hn => Bool.eq_false_iff.mp (hlost n hn).2,
      List.nil_append, Docket.see, List.flatMap_append]

/-- The bus has what the docket says was reported, over a whole run. -/
theorem Told.after (h : d.Told b) (turns : List LaneTurn) : (d.after turns).Told b := by
  induction turns generalizing d with
  | nil => exact h
  | cons t rest ih => exact ih (h.see t)

/-- What is on the bus after some turns is what was there before, and what the
    docket says. -/
theorem told_after (now : Lanes) (turns : List LaneTurn) :
    ((start now).after turns).Told now.2.bus := by
  have hstart : (start now).Told now.2.bus := ⟨[], .nothing _, rfl, rfl⟩
  exact hstart.after turns

end Docket

end SoftPlc
