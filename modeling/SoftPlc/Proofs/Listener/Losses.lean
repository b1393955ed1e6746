import SoftPlc.Proofs.Lane.Outcomes
import SoftPlc.Proofs.Lane.Reports
import SoftPlc.Proofs.Listener.Relay

/-!
# Losses

A lane that cannot queue an event accounts for the loss, and it does so once:
what happens to a set of lanes is noted in a docket, each delivery noted there
has met one fate, and the reports of losses on the bus are those of the
deliveries that met that fate. So nothing is lost in silence but a report of a
loss.

This is what keeps the reports from multiplying. They are published on the bus
from which the listener feeds the lanes, so each of them is offered to every
lane as well. But whatever becomes of it there, no further report comes of it.
Therefore each event that the listener hands on costs one report for each lane,
at most, and a report costs none. That needs nothing to be known about the
lanes or the subscribers, who may be slow, gone or panicking.

Reports of panics are different: they are events like any other, and
`reports_die_out` is about them.

## Main definitions

* `lossReports`, `otherEvents`: How many of some events report a loss, and how
  many do not.
* `Relay.Gains`: What a run adds to the bus.

## Theorems

* `lossReports_emit`: What the delivery of one event costs.
* `Relay.gains_see`, `Relay.gains_after`: What the listener and the lanes add.
* `losses_accounted`: Every loss is accounted for once, and the reports are
  bounded.
-/

namespace SoftPlc

/-- How many of some events report a loss. -/
def lossReports (events : List Event) : Nat :=
  events.countP fun e => e.notice.isOverflow

/-- How many do not. -/
def otherEvents (events : List Event) : Nat :=
  events.countP fun e => !e.notice.isOverflow

/-- A report of a loss is published from outside. -/
def RelayAction.reportsLoss : RelayAction → Bool
  | .act (.publish notice) => notice.isOverflow
  | _ => false

/-- A log gains the reports that are told, if it is kept at all. -/
theorem Bus.Tells.lossReports_le {b b' : Bus} {ns : List Notice} (h : b.Tells ns b') :
    lossReports b'.log.toList ≤ lossReports b.log.toList + ns.countP Notice.isOverflow := by
  rcases h with ⟨events, rfl, rfl⟩
  rw [List.countP_map]
  induction events generalizing b with
  | nil => exact Nat.le_refl _
  | cons e rest ih =>
      have hall : b.publishAll (e :: rest) = (b.publish e).publishAll rest := rfl
      have hpublish : lossReports (b.publish e).log.toList
          ≤ lossReports b.log.toList + if e.notice.isOverflow then 1 else 0 := by
        unfold Bus.publish
        split
        next => exact Nat.le_add_right _ _
        next =>
          rw [Array.toList_push, lossReports, List.countP_append, List.countP_singleton]
          exact Nat.le_refl _
      have hrest := ih (b := b.publish e)
      rw [hall, List.countP_cons]
      simp only [Function.comp_apply] at hrest ⊢
      omega

namespace Delivery

variable {x : Delivery}

/-- A report that is lost is lost in silence. -/
theorem reports_of_overflow (h : x.event.notice.isOverflow = true) : x.reports = [] := by
  have hsuits : x.fate.Suits x.lane x.event := x.lane.suits_fate x.event
  unfold reports
  split
  next reason hfate =>
    rw [hfate] at hsuits
    rw [hsuits.1] at h
    exact absurd h Bool.false_ne_true
  next => rfl

theorem length_reports (x : Delivery) : x.reports.length ≤ 1 := by
  unfold reports
  split
  next => exact Nat.le_refl 1
  next => exact Nat.zero_le 1

theorem length_flatMap_reports (xs : List Delivery) :
    (xs.flatMap reports).length ≤ xs.length := by
  induction xs with
  | nil => exact Nat.le_refl 0
  | cons x rest ih =>
      have hfirst := x.length_reports
      rw [List.flatMap_cons, List.length_append, List.length_cons]
      omega

end Delivery

/-- The delivery of one event costs a report for each lane, at most, and that
    of a report costs none. -/
theorem lossReports_emit (place : Nat) (lanes : List Lane) (e : Event) (j : Journal) :
    ((deliveriesFrom place lanes e j).flatMap Delivery.reports).countP Notice.isOverflow
      ≤ lanes.length * otherEvents [e] := by
  cases ho : e.notice.isOverflow with
  | true =>
      have hnone : (deliveriesFrom place lanes e j).flatMap Delivery.reports = [] := by
        refine List.flatMap_eq_nil_iff.mpr fun x hx => ?_
        rcases mem_deliveriesFrom hx with ⟨_, _, _, hevent⟩
        exact Delivery.reports_of_overflow (by rw [hevent]; exact ho)
      rw [hnone]
      exact Nat.zero_le _
  | false =>
      have hone : otherEvents [e] = 1 := by
        rw [otherEvents, List.countP_singleton, ho]
        rfl
      have hlength := Delivery.length_flatMap_reports (deliveriesFrom place lanes e j)
      rw [hone, Nat.mul_one]
      exact Nat.le_trans List.countP_le_length
        (Nat.le_trans hlength (length_deliveriesFrom place lanes e j))

theorem length_emit (lanes : List Lane) (e : Event) (j : Journal) :
    (emit lanes e j).1.length = lanes.length := by
  have hstaff := congrArg List.length (staff_emit lanes e j)
  rwa [List.length_map, List.length_map] at hstaff

theorem Bus.log_receive (b : Bus) (receiver : Nat) : (b.receive receiver).2.log = b.log := by
  unfold Bus.receive
  split
  next => rfl
  next => rfl

/-- Without an event neither the number of the lanes nor the log changes. -/
theorem Listener.receive_without {now now' : WithJournal} {got : Received} {bus : Bus}
    (hgot : now.2.bus.receive now.1.receiver = (got, bus)) (hnone : ∀ e, got ≠ .event e)
    (h : receive now = some now') :
    now'.1.lanes.length = now.1.lanes.length ∧ now'.2.bus.log = now.2.bus.log := by
  have hlog : bus.log = now.2.bus.log := by
    have hsame := now.2.bus.log_receive now.1.receiver
    rwa [hgot] at hsame
  cases hphase : now.1.phase with
  | forwarding =>
      simp only [receive, hphase, forward, hgot, if_true] at h
      cases got with
      | event e => exact absurd rfl (hnone e)
      | lagged n =>
          cases h
          exact ⟨rfl, hlog⟩
      | empty => exact absurd h (Option.some_ne_none _).symm
      | closed =>
          cases h
          exact ⟨rfl, rfl⟩
  | draining =>
      rw [receive_of_end hphase hgot hnone] at h
      cases h
      exact ⟨List.length_map _, hlog⟩
  | ended =>
      simp only [receive, hphase] at h
      exact absurd h (Option.some_ne_none _).symm

namespace Relay

variable {w w' : Relay}

/-- What is added to the bus, some reports from outside included: each event
    that is handed on costs a report for each lane, at most. -/
structure Gains (w w' : Relay) (outside : Nat) : Prop where
  lanes : w'.now.1.lanes.length = w.now.1.lanes.length
  reports : ∃ more, w'.emitted = w.emitted ++ more ∧ lossReports w'.log
    ≤ lossReports w.log + w.now.1.lanes.length * otherEvents more + outside

theorem Gains.nothing (w : Relay) (outside : Nat) : Gains w w outside :=
  ⟨rfl, [], (List.append_nil _).symm, by omega⟩

/-- Nothing is handed on, and nothing is reported but from outside. -/
theorem Gains.aside {outside : Nat} (hemitted : w'.emitted = w.emitted)
    (hlanes : w'.now.1.lanes.length = w.now.1.lanes.length)
    (hlog : lossReports w'.log ≤ lossReports w.log + outside) : Gains w w' outside :=
  ⟨hlanes, [], by rw [hemitted, List.append_nil], by omega⟩

theorem gains_receive (hlive : w.phase ≠ .ended) : Gains w (w.see (.act .receive)) 0 := by
  rw [see_receive hlive]
  rcases hgot : w.bus.receive w.now.1.receiver with ⟨got, bus⟩
  have hlog : bus.log = w.bus.log := by
    have hsame := w.bus.log_receive w.now.1.receiver
    rwa [hgot] at hsame
  by_cases hevent : ∃ e, got = .event e
  · rcases hevent with ⟨e, rfl⟩
    have hreceive : Listener.receive w.now
        = some (w.now.1.deliver e { w.now.2 with bus }) := Listener.receive_of_event hlive hgot
    rw [hreceive]
    refine ⟨length_emit _ _ _, [e], rfl, ?_⟩
    have htells := (tells_emit 0 w.now.1.lanes e { w.now.2 with bus }).lossReports_le
    have hcost := lossReports_emit 0 w.now.1.lanes e { w.now.2 with bus }
    rw [hlog] at htells
    exact Nat.le_trans htells (Nat.add_le_add_left hcost _)
  · have hnone : ∀ e, got ≠ .event e := fun e h => hevent ⟨e, h⟩
    cases hreceive : Listener.receive w.now with
    | none => exact .nothing w 0
    | some now =>
        rcases Listener.receive_without hgot hnone hreceive with ⟨hlanes, hsame⟩
        have hnote : (w.note now got).emitted = w.emitted ∧ (w.note now got).now = now := by
          cases got with
          | event e => exact absurd rfl (hnone e)
          | lagged n => exact ⟨rfl, rfl⟩
          | empty => exact ⟨rfl, rfl⟩
          | closed => exact ⟨rfl, rfl⟩
        refine .aside hnote.1 (by rw [hnote.2]; exact hlanes) ?_
        rw [log_note, hsame]
        exact Nat.le_refl _

/-- What a step of anybody adds to the bus. -/
theorem gains_see (w : Relay) (a : RelayAction) :
    Gains w (w.see a) (if a.reportsLoss then 1 else 0) := by
  cases a with
  | others receivers => exact .aside rfl rfl (Nat.le_refl _)
  | act action =>
      by_cases hlive : w.phase = .ended
      · rw [see, if_pos hlive]
        exact .nothing w _
      · by_cases hreceive : action = .receive
        · rw [hreceive]
          exact gains_receive hlive
        · rw [see, if_neg hlive]
          rcases hstep : Listener.step w.now action with _ | now'
          · exact .nothing w _
          · -- What is not a receipt emits nothing, so only its own reports are to be counted.
            have hgains : ∀ {outside : Nat}, now'.1.lanes.length = w.now.1.lanes.length →
                lossReports now'.2.bus.log.toList ≤ lossReports w.log + outside →
                Gains w { w with now := now' } outside :=
              fun hlanes hlog => .aside rfl hlanes hlog
            cases action with
            | receive => exact absurd rfl hreceive
            | publish notice =>
                cases hstep
                have htells := (Bus.tells_publishAll w.now.2 [notice]).lossReports_le
                rw [List.countP_singleton] at htells
                exact hgains rfl htells
            | stop =>
                have hif : (if w.now.1.phase = .forwarding then some (w.now.1.stop, w.now.2)
                    else none) = some now' := hstep
                split at hif
                next hphase =>
                  cases hif
                  have hstop : w.now.1.stop.lanes = w.now.1.lanes := by
                    rw [Listener.stop, if_pos hphase]
                  exact hgains (congrArg List.length hstop) (Nat.le_refl _)
                next => exact absurd hif (Option.some_ne_none _).symm
            | take i =>
                rcases Option.bind_eq_some_iff.mp hstep with ⟨lane, _, hif⟩
                split at hif
                next =>
                  cases hif
                  exact hgains List.length_set (Nat.le_refl _)
                next => exact absurd hif (Option.some_ne_none _).symm
            | handle i =>
                rcases Option.bind_eq_some_iff.mp hstep with ⟨lane, _, hif⟩
                split at hif
                next =>
                  cases hif
                  have htells := (tells_handle lane i w.now.2).lossReports_le
                  have hnone : ((lane.handovers i).flatMap Handover.reports).countP
                      Notice.isOverflow = 0 := by
                    refine List.countP_eq_zero.mpr fun n hn => ?_
                    rcases List.mem_flatMap.mp hn with ⟨h, _, hreport⟩
                    exact Bool.eq_false_iff.mp (Handover.isPanic_of_report hreport).2
                  rw [hnone] at htells
                  exact hgains List.length_set htells
                next => exact absurd hif (Option.some_ne_none _).symm

theorem Gains.trans {w'' : Relay} {n m : Nat} (h : Gains w w' n) (h' : Gains w' w'' m) :
    Gains w w'' (n + m) := by
  rcases h.reports with ⟨more, hmore, hle⟩
  rcases h'.reports with ⟨rest, hrest, hle'⟩
  refine ⟨h'.lanes.trans h.lanes, more ++ rest, ?_, ?_⟩
  · rw [hrest, hmore, List.append_assoc]
  · rw [h.lanes] at hle'
    rw [otherEvents, List.countP_append, Nat.mul_add]
    simp only [otherEvents] at hle hle'
    omega

/-- In a run the bus gains what is published from outside, and reports. -/
theorem gains_after (w : Relay) (actions : List RelayAction) :
    Gains w (w.after actions) (actions.countP RelayAction.reportsLoss) := by
  induction actions generalizing w with
  | nil => exact .nothing w 0
  | cons a rest ih =>
      have htotal := (gains_see w a).trans (ih (w.see a))
      rw [List.countP_cons, Nat.add_comm]
      exact htotal

/-- As long as the listener has not ended everything that is published is recorded. -/
theorem Sound.log_publish (h : w.Sound) (hlive : w.phase ≠ .ended) (e : Event) :
    (w.bus.publish e).log.toList = w.log ++ [e] := by
  have hs := h.live hlive
  have hheard : w.bus.receiverCount ≠ 0 := by
    refine Nat.ne_of_gt (List.countP_pos_iff.mpr ⟨some w.passed.length, ?_, rfl⟩)
    exact List.mem_of_getElem? hs.stands
  exact Bus.log_publishAll hs.opened hheard [e]

end Relay

namespace Docket

/-- A lane is delivered what is emitted and its subscriber is given, in order. -/
theorem delivered_after (lanes : List Lane) (j : Journal) (turns : List LaneTurn) {k : Nat}
    {l : Lane} (hl : lanes[k]? = some l) :
    (((start (lanes, j)).after turns).deliveredTo k).map Delivery.event
      = (turns.filterMap LaneTurn.emitted?).filter fun e => l.accepts e.kind := by
  have hrun : ∃ now, ((start (lanes, j)).after turns).now.1[k]? = some now ∧
      now.subscriber = l.subscriber ∧
      (((start (lanes, j)).after turns).deliveredTo k).map Delivery.event
        = ((turns.filterMap (LaneTurn.view k)).filterMap LaneView.emitted?).filter
          fun e => l.accepts e.kind := by
    refine lane_after (P := fun views now xs _ => now.subscriber = l.subscriber ∧
      xs.map Delivery.event = (views.filterMap LaneView.emitted?).filter
        fun e => l.accepts e.kind) ?_ hl ⟨rfl, rfl⟩ turns
    rintro views now xs es v now' xs' es' ⟨hsubscriber, hevents⟩ hfares
    refine ⟨hfares.subscriber.trans hsubscriber, ?_⟩
    rw [List.map_append, List.filterMap_append, List.filter_append, hevents]
    refine congrArg _ ?_
    have haccepts : ∀ k, now.accepts k = l.accepts k :=
      fun k => congrArg (fun s => Subscriber.takes s k) hsubscriber
    cases hfares with
    | aside => rfl
    | declined e h =>
        rw [haccepts] at h
        simp [LaneView.emitted?, h]
    | delivered e j h =>
        rw [haccepts] at h
        simp [LaneView.emitted?, h]
    | take => rfl
    | handle => rfl
    | close => rfl
    | abandon => rfl
  rcases hrun with ⟨_, _, _, hevents⟩
  rw [hevents, List.filterMap_filterMap]
  exact congrArg _ (List.filterMap_congr fun t _ => t.emitted_view k)

end Docket

/-- Lanes of any kind and in any state are delivered what is emitted and their
    subscribers are given. Each delivery meets one fate and no other: the event
    is queued, or is a line and counted, or is reported as lost in that lane,
    or is such a report itself. A line that comes to an open lane is not
    reported. The reports of losses on the bus are those, each once and in
    order. And if the listener feeds the lanes from the bus, then whatever
    anybody does, the reports of losses that the lanes add are no more than
    there are lanes for each other event that is handed on. (Until it has ended,
    all that is published is recorded on its bus.) -/
theorem losses_accounted (lanes : List Lane) (j : Journal) (turns : List LaneTurn)
    (listener : Listener) (capacity : Nat) (subscribers : List Subscriber)
    (actions : List RelayAction) :
    let d := (Docket.start (lanes, j)).after turns
    let fed := ({ now := (listener, j) } : Relay).after actions
    let w := (Relay.start capacity subscribers).after actions
    ((∀ k l, lanes[k]? = some l → (d.deliveredTo k).map Delivery.event
        = (turns.filterMap LaneTurn.emitted?).filter fun e => l.accepts e.kind) ∧
      (∀ x ∈ d.deliveries,
        (lanes.map Lane.subscriber)[x.index]? = some x.lane.subscriber ∧
        x.Meets x.fate ∧ (∀ f, x.Meets f → f = x.fate) ∧
        (x.event.notice.isLine = true → x.lane.state = .attended →
          x.fate = .queued ∨ x.fate = .counted)) ∧
      ∃ published, d.now.2.bus = j.bus.publishAll published ∧
        (j.bus.closed = false → j.bus.receiverCount ≠ 0 →
          d.now.2.bus.log.toList = j.bus.log.toList ++ published) ∧
        (published.map Event.notice).filter Notice.isOverflow
          = d.deliveries.flatMap Delivery.reports) ∧
    lossReports fed.log ≤ lossReports j.bus.log.toList
      + listener.lanes.length * otherEvents fed.emitted
      + actions.countP RelayAction.reportsLoss ∧
    lossReports w.log ≤ subscribers.length * otherEvents w.emitted
      + actions.countP RelayAction.reportsLoss ∧
    (w.phase ≠ .ended → ∀ e, (w.bus.publish e).log.toList = w.log ++ [e]) := by
  intro d fed w
  refine ⟨⟨fun k l hl => Docket.delivered_after lanes j turns hl, fun x hx => ?_, ?_⟩, ?_, ?_, ?_⟩
  · have hstaffed := Docket.staffed_after (lanes, j) turns
    exact ⟨hstaffed.deliveries x hx, x.meets_fate, fun f => (x.meets_iff f).mp, x.not_reported⟩
  · rcases Docket.told_after (lanes, j) turns with ⟨notices, ⟨published, hbus, rfl⟩, hreports, _⟩
    refine ⟨published, hbus, fun hopen hheard => ?_, hreports⟩
    rw [hbus]
    exact Bus.log_publishAll hopen hheard published
  · rcases (Relay.gains_after ({ now := (listener, j) } : Relay) actions).reports
      with ⟨more, hmore, hle⟩
    have hemitted : fed.emitted = more := hmore
    rw [hemitted]
    exact hle
  · rcases (Relay.gains_after (Relay.start capacity subscribers) actions).reports
      with ⟨more, hmore, hle⟩
    have hemitted : w.emitted = more := hmore
    have hlanes : (Relay.start capacity subscribers).now.1.lanes.length = subscribers.length :=
      List.length_map _
    have hnone : lossReports (Relay.start capacity subscribers).log = 0 := rfl
    rw [hlanes, hnone, Nat.zero_add] at hle
    rw [hemitted]
    exact hle
  · -- Until it has ended, the listener is itself the receiver that is counted.
    have hsound := Relay.sound_after (Relay.sound_start capacity subscribers) actions
    exact fun hlive e => hsound.log_publish hlive e

end SoftPlc
