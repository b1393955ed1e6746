import SoftPlc.Proofs.Listener.Relay
import SoftPlc.Proofs.Listener.Tariff

/-!
# Reports about reports

A panic is reported, and a dropped event is. A report is published like
anything else, so it comes to the lanes again, and may be dropped there or meet
a subscriber that panics. One report may so bring about the next. A report of a
dropped event ends this when it is dropped itself. A report of a panic does
not: a subscriber that panics whenever it is told of a panic keeps its worker
and the listener busy for ever, and this is `panics_feed_themselves`.

If the subscribers are `Damped` everything comes to rest, whatever else they
panic at and however little room they have. The argument is one of prices. The
number of the events made so far, with the price of all there is, is raised by
nothing but what is published from outside, and each step of the listener and
the workers lowers it. So it bounds both, the steps and the events. This holds
of a closed lane, a listener that has ended and a receiver that has lost
entries as well, and others may come to the bus and leave it.

## Main definitions

* `Listener.happen`, `Listener.run`: Anything happens, in any order.
* `Listener.Resting`: Nothing can happen from within.
* `Listener.Staffed`: What is true of the lanes at any moment.

## Theorems

* `Listener.Staffed.own`: What a step of the listener or a worker costs.
* `Listener.Staffed.run`: What a run costs.
* `Listener.Staffed.rests`: It comes to an end.
* `reports_die_out`: A bound for what follows from what was published.
* `panics_feed_themselves`: There is none if a panic is met with another.
-/

namespace SoftPlc

namespace RelayAction

/-- The listener or a worker does something. -/
def isOwn : RelayAction → Bool
  | .act .receive | .act (.take _) | .act (.handle _) => true
  | _ => false

/-- Something is published from outside. -/
def isPublication : RelayAction → Bool
  | .act (.publish _) => true
  | _ => false

end RelayAction

namespace Listener

/-- What comes of anything that happens; `none` if it cannot happen. -/
def happen : WithJournal → RelayAction → Option WithJournal
  | now, .act action => step now action
  | (l, j), .others receivers =>
    some (l, { j with bus := { j.bus with receivers := j.bus.receivers.take 1 ++ receivers } })

/-- What comes of several things that happen in order. -/
def run (now : WithJournal) (actions : List RelayAction) : Option WithJournal :=
  actions.foldlM happen now

/-- Neither the listener nor a worker has anything to do. -/
def Resting (now : WithJournal) : Prop :=
  ∀ a : RelayAction, a.isOwn = true → happen now a = none

/-- Each subscriber has a lane, with nothing on it that it is not given, and
    the listener is the first receiver of the bus, unless it has left. -/
structure Staffed (subscribers : List Subscriber) (now : WithJournal) : Prop where
  staff : now.1.lanes.map Lane.subscriber = subscribers
  apt : ∀ l ∈ now.1.lanes, l.Apt
  receiver : now.1.receiver = 0
  listens : 0 < now.2.bus.receivers.length

variable {subscribers : List Subscriber} {now now' : WithJournal}

theorem Staffed.mem (h : Staffed subscribers now) {l : Lane} (hl : l ∈ now.1.lanes) :
    l.subscriber ∈ subscribers := by
  rw [← h.staff]
  exact List.mem_map_of_mem hl

/-- How many subscribers take a kind can be counted among the lanes. -/
theorem Staffed.count (h : Staffed subscribers now) (k : EventKind) :
    (now.1.lanes.countP fun l => l.subscriber.takes k)
      = subscribers.countP fun s => s.takes k := by
  rw [← h.staff, List.countP_map]
  rfl

/-- The listener stands elsewhere on the bus. -/
theorem Staffed.move (h : Staffed subscribers now) {bus : Bus}
    (hsame : bus.receivers.length = now.2.bus.receivers.length) :
    Staffed subscribers (now.1, { now.2 with bus }) where
  staff := h.staff
  apt := h.apt
  receiver := h.receiver
  listens := by
    dsimp only
    rw [hsame]
    exact h.listens

/-- The price of an event pays for what the lanes do with it. -/
theorem Staffed.deliver (h : Staffed subscribers now) (t : Tariff subscribers) (e : Event) :
    Staffed subscribers (now.1.deliver e now.2) ∧
      t.charge (now.1.deliver e now.2) + 1 ≤ t.charge now + t.ahead e.kind := by
  rcases apt_emit e now.2 h.apt with ⟨hstaff, hapt⟩
  have hgrows := Bus.grows_emit now.1.lanes e now.2
  constructor
  · refine ⟨hstaff.trans h.staff, hapt, h.receiver, ?_⟩
    have hreceivers : (now.1.deliver e now.2).2.bus.receivers = now.2.bus.receivers :=
      hgrows.receivers
    rw [hreceivers]
    exact h.listens
  · have hemit := t.charge_emit now.1.receiver now.1.lanes e now.2 fun l hl => h.mem hl
    have hreceived := t.received e.kind
    have hcharge : t.charge (now.1.deliver e now.2)
        = t.journal now.1.receiver (emit now.1.lanes e now.2).2
          + t.lanes (emit now.1.lanes e now.2).1 + now.1.phase.left := rfl
    rw [h.count e.kind] at hemit
    rw [hcharge, Tariff.charge]
    omega

/-- A listener that gets an event and emits it pays for all that the event comes
    to. -/
theorem Staffed.event (h : Staffed subscribers now) (t : Tariff subscribers) {position : Nat}
    {e : Event} (hstands : now.2.bus.receivers[now.1.receiver]? = some (some position))
    (hentry : now.2.bus.log.toList[position]? = some e) {bus : Bus}
    (hbus : bus = { now.2.bus with
      receivers := now.2.bus.receivers.set now.1.receiver (some (position + 1)) }) :
    Staffed subscribers (now.1.deliver e { now.2 with bus }) ∧
      t.charge (now.1.deliver e { now.2 with bus }) + 1 ≤ t.charge now := by
  have hmoved : Staffed subscribers (now.1, { now.2 with bus }) := by
    refine h.move ?_
    rw [hbus]
    exact List.length_set
  rcases hmoved.deliver t e with ⟨hstaffed, hcharge⟩
  have hpaid := t.bus_event hstands hentry
  refine ⟨hstaffed, ?_⟩
  rw [← hbus] at hpaid
  simp only [Tariff.charge, Tariff.journal] at hcharge ⊢
  omega

/-- A listener that is told of a lag pays for it, and gains what it has lost. -/
theorem Staffed.lagged (h : Staffed subscribers now) (t : Tariff subscribers) {position : Nat}
    (hstands : now.2.bus.receivers[now.1.receiver]? = some (some position))
    (hlag : position < now.2.bus.oldest) {bus : Bus}
    (hbus : bus = { now.2.bus with
      receivers := now.2.bus.receivers.set now.1.receiver (some now.2.bus.oldest) }) :
    Staffed subscribers (now.1, { now.2 with bus }) ∧
      t.charge (now.1, { now.2 with bus }) + 1 ≤ t.charge now := by
  have hpaid := t.bus_lagged hstands hlag
  rw [← hbus] at hpaid
  constructor
  · refine h.move ?_
    rw [hbus]
    exact List.length_set
  · simp only [Tariff.charge, Tariff.journal]
    omega

/-- The listener changes over. -/
theorem Staffed.change (h : Staffed subscribers now) (t : Tariff subscribers)
    {phase : ListenerPhase} (hphase : phase.left < now.1.phase.left) :
    Staffed subscribers ({ now.1 with phase }, now.2) ∧
      t.charge ({ now.1 with phase }, now.2) + 1 ≤ t.charge now := by
  refine ⟨⟨h.staff, h.apt, h.receiver, h.listens⟩, ?_⟩
  simp only [Tariff.charge]
  omega

/-- The listener ends. -/
theorem Staffed.finish (h : Staffed subscribers now) (t : Tariff subscribers) (bus : Bus)
    (hsame : bus.receivers.length = now.2.bus.receivers.length) (hd : now.1.phase = .draining) :
    let now' : WithJournal := ({ now.1 with phase := .ended, lanes := now.1.lanes.map Lane.close },
      { now.2 with bus := bus.unsubscribe now.1.receiver })
    Staffed subscribers now' ∧ t.charge now' + 1 ≤ t.charge now := by
  intro now'
  have hclose : ∀ l : Lane, l.close.subscriber = l.subscriber ∧ (l.Apt → l.close.Apt) := by
    intro l
    unfold Lane.close
    split
    next => exact ⟨rfl, fun hl => ⟨hl.queue, hl.inHand, hl.gap⟩⟩
    next => exact ⟨rfl, id⟩
  constructor
  · refine ⟨?_, fun l hl => ?_, h.receiver, ?_⟩
    · refine Eq.trans ?_ h.staff
      rw [List.map_map]
      exact List.map_congr_left fun l _ => (hclose l).1
    · rcases List.mem_map.mp hl with ⟨l', hl', rfl⟩
      exact (hclose l').2 (h.apt l' hl')
    · change 0 < (bus.receivers.set now.1.receiver none).length
      rw [List.length_set, hsame]
      exact h.listens
  · have hlanes : t.lanes (now.1.lanes.map Lane.close) = t.lanes now.1.lanes := by
      rw [Tariff.lanes, List.map_map]
      exact congrArg List.sum (List.map_congr_left fun l _ => t.lane_close l)
    have hcharge : t.charge now' = now.2.next
      + t.bus now.1.receiver (bus.unsubscribe now.1.receiver)
      + t.lanes (now.1.lanes.map Lane.close) + 0 := rfl
    have hleft : now.1.phase.left = 1 := by
      rw [hd]
      rfl
    rw [hcharge, hlanes, t.bus_unsubscribe, Tariff.charge, Tariff.journal, hleft]
    omega

/-- A receipt is paid for by what is received. -/
theorem Staffed.receive (h : Staffed subscribers now) (t : Tariff subscribers)
    (hstep : Listener.receive now = some now') :
    Staffed subscribers now' ∧ t.charge now' + 1 ≤ t.charge now := by
  have hgot := now.2.bus.receives now.1.receiver
  unfold Listener.receive at hstep
  cases hphase : now.1.phase with
  | forwarding =>
      simp only [hphase, forward, if_true] at hstep
      generalize now.2.bus.receive now.1.receiver = got at hgot hstep
      cases hgot with
      | event position e hstands hentry =>
          cases hstep
          exact h.event t hstands hentry rfl
      | lagged position hstands hlag =>
          cases hstep
          exact h.lagged t hstands hlag rfl
      | nothing got b' hnone hsame =>
          rcases hnone with rfl | rfl
          · exact absurd hstep (Option.some_ne_none _).symm
          · cases hstep
            exact h.change t (by rw [hphase]; exact Nat.one_lt_two)
  | draining =>
      simp only [hphase, drain, if_true] at hstep
      generalize now.2.bus.receive now.1.receiver = got at hgot hstep
      cases hgot with
      | event position e hstands hentry =>
          cases hstep
          exact h.event t hstands hentry rfl
      -- A drain ends at a lag as it does at the end, and that is paid for too.
      | lagged position hstands hlag =>
          cases hstep
          exact h.finish t _ List.length_set hphase
      | nothing got b' hnone hsame =>
          rcases hnone with rfl | rfl
          · cases hstep
            exact h.finish t _ hsame hphase
          · cases hstep
            exact h.finish t _ hsame hphase
  | ended =>
      rw [hphase] at hstep
      exact absurd hstep (Option.some_ne_none _).symm

/-- A worker does something, and pays for it with the event that it is
    about. -/
theorem Staffed.work (h : Staffed subscribers now) (t : Tariff subscribers) {i : Nat}
    {lane lane' : Lane} {j : Journal} (hlane : now.1.lanes[i]? = some lane)
    (hsubscriber : lane'.subscriber = lane.subscriber) (hapt : lane'.Apt)
    (hreceivers : j.bus.receivers = now.2.bus.receivers)
    (hpaid : t.lane lane' + t.journal now.1.receiver j + 1
      ≤ t.lane lane + t.journal now.1.receiver now.2) :
    Staffed subscribers ({ now.1 with lanes := now.1.lanes.set i lane' }, j) ∧
      t.charge ({ now.1 with lanes := now.1.lanes.set i lane' }, j) + 1 ≤ t.charge now := by
  constructor
  · refine ⟨?_, fun l hl => ?_, h.receiver, ?_⟩
    · have hsame : (now.1.lanes.map Lane.subscriber)[i]? = some lane'.subscriber := by
        rw [List.getElem?_map, hlane, hsubscriber]
        rfl
      rcases List.getElem?_eq_some_iff.mp hsame with ⟨hlt, heq⟩
      dsimp only
      rw [List.map_set, ← heq, List.set_getElem_self]
      exact h.staff
    · rcases List.mem_or_eq_of_mem_set hl with hold | rfl
      · exact h.apt l hold
      · exact hapt
    · rw [hreceivers]
      exact h.listens
  · have hlanes := t.lanes_set hlane lane'
    simp only [Tariff.charge]
    omega

/-- A worker that takes an event in hand pays for that step. -/
theorem Staffed.take (h : Staffed subscribers now) (t : Tariff subscribers) {i : Nat}
    (hstep : Listener.step now (.take i) = some now') :
    Staffed subscribers now' ∧ t.charge now' + 1 ≤ t.charge now := by
  rcases Option.bind_eq_some_iff.mp hstep with ⟨lane, hlane, hif⟩
  split at hif
  next hready =>
    cases hif
    rcases (h.apt lane (List.mem_of_getElem? hlane)).take with ⟨hsubscriber, hapt⟩
    have hpaid := t.charge_take lane hready
    exact h.work t hlane hsubscriber hapt rfl (by omega)
  next => exact absurd hif (Option.some_ne_none _).symm

/-- A worker that hands it over pays for that and for the report of a panic. -/
theorem Staffed.handle (h : Staffed subscribers now) (t : Tariff subscribers) {i : Nat}
    (hstep : Listener.step now (.handle i) = some now') :
    Staffed subscribers now' ∧ t.charge now' + 1 ≤ t.charge now := by
  rcases Option.bind_eq_some_iff.mp hstep with ⟨lane, hlane, hif⟩
  split at hif
  next hready =>
    cases hif
    have hmem := List.mem_of_getElem? hlane
    have hheld := h.apt lane hmem
    rcases hheld.handle now.2 with ⟨hsubscriber, hapt⟩
    have hpaid := t.charge_handle now.1.receiver now.2 (h.mem hmem) hheld hready
    have hgrows := Bus.grows_handle lane now.2
    exact h.work t hlane hsubscriber hapt hgrows.receivers hpaid
  next => exact absurd hif (Option.some_ne_none _).symm

/-- Only what is published from outside adds to the charge, and no more than its
    price. -/
theorem Staffed.publish (h : Staffed subscribers now) (t : Tariff subscribers) (n : Notice) :
    Staffed subscribers (now.1, now.2.publish n) ∧
      t.charge (now.1, now.2.publish n) ≤ t.charge now + t.ahead n.kind + 1 := by
  have hgrows := Bus.grows_publish now.2.bus ⟨now.2.next, n⟩
  have hpublish := t.journal_publish now.1.receiver now.2 n
  constructor
  · refine ⟨h.staff, h.apt, h.receiver, ?_⟩
    have hreceivers : (now.2.publish n).bus.receivers = now.2.bus.receivers := hgrows.receivers
    rw [hreceivers]
    exact h.listens
  · simp only [Tariff.charge]
    omega

/-- The first receiver stays where it stands, whatever the others do. -/
theorem Staffed.others (h : Staffed subscribers now) (t : Tariff subscribers)
    (receivers : List (Option Nat)) {bus : Bus}
    (hbus : bus = { now.2.bus with receivers := now.2.bus.receivers.take 1 ++ receivers }) :
    Staffed subscribers (now.1, { now.2 with bus }) ∧
      t.charge (now.1, { now.2 with bus }) = t.charge now := by
  rcases hreceivers : now.2.bus.receivers with _ | ⟨first, rest⟩
  · have hlistens := h.listens
    rw [hreceivers] at hlistens
    exact absurd hlistens (Nat.lt_irrefl 0)
  · rw [hreceivers] at hbus
    constructor
    · refine ⟨h.staff, h.apt, h.receiver, ?_⟩
      rw [hbus]
      exact Nat.succ_pos _
    · have hsame : t.bus now.1.receiver bus = t.bus now.1.receiver now.2.bus := by
        rw [h.receiver, hbus, Tariff.bus, Tariff.bus, hreceivers]
        rfl
      simp only [Tariff.charge, Tariff.journal, hsame]

/-- Each step of the listener and the workers is paid for by what there is. -/
theorem Staffed.own (h : Staffed subscribers now) (t : Tariff subscribers) {a : RelayAction}
    (hown : a.isOwn = true) (hstep : Listener.happen now a = some now') :
    Staffed subscribers now' ∧ t.charge now' + 1 ≤ t.charge now := by
  cases a with
  | others receivers => exact absurd hown Bool.false_ne_true
  | act action =>
      cases action with
      | publish notice => exact absurd hown Bool.false_ne_true
      | receive => exact h.receive t hstep
      | stop => exact absurd hown Bool.false_ne_true
      | take i => exact h.take t hstep
      | handle i => exact h.handle t hstep

/-- Only what is published from outside brings anything in. -/
theorem Staffed.happen (h : Staffed subscribers now) (t : Tariff subscribers) {price : Nat}
    (hprice : ∀ k, t.ahead k + 1 ≤ price) {a : RelayAction}
    (hstep : Listener.happen now a = some now') :
    Staffed subscribers now' ∧ t.charge now' + (if a.isOwn then 1 else 0)
      ≤ t.charge now + if a.isPublication then price else 0 := by
  by_cases hown : a.isOwn = true
  · rcases h.own t hown hstep with ⟨hstaffed, hcharge⟩
    rw [if_pos hown]
    exact ⟨hstaffed, Nat.le_add_right_of_le hcharge⟩
  · rw [if_neg hown, Nat.add_zero]
    cases a with
    | others receivers =>
        cases hstep
        rcases h.others t receivers rfl with ⟨hstaffed, hcharge⟩
        exact ⟨hstaffed, Nat.le_of_eq hcharge⟩
    | act action =>
        cases action with
        | publish notice =>
            cases hstep
            rcases h.publish t notice with ⟨hstaffed, hcharge⟩
            have hpublication : (RelayAction.act (.publish notice)).isPublication = true := rfl
            have hfee := hprice notice.kind
            refine ⟨hstaffed, ?_⟩
            rw [if_pos hpublication]
            omega
        | receive => exact absurd rfl hown
        | stop =>
            have hif : (if now.1.phase = .forwarding then some (now.1.stop, now.2) else none)
                = some now' := hstep
            split at hif
            next hphase =>
              have hstop : now.1.stop = { now.1 with phase := .draining } := if_pos hphase
              -- The phase is paid for as well, so that stopping costs nothing.
              have hleft : ListenerPhase.draining.left < now.1.phase.left := by
                rw [hphase]
                exact Nat.one_lt_two
              rw [hstop] at hif
              cases hif
              rcases h.change t hleft with ⟨hstaffed, hcharge⟩
              exact ⟨hstaffed, Nat.le_of_succ_le hcharge⟩
            next => exact absurd hif (Option.some_ne_none _).symm
        | take i => exact absurd rfl hown
        | handle i => exact absurd rfl hown

/-- A run has no more steps, and makes no more events, than was paid for. -/
theorem Staffed.run (h : Staffed subscribers now) (t : Tariff subscribers) {price : Nat}
    (hprice : ∀ k, t.ahead k + 1 ≤ price) {actions : List RelayAction}
    (hrun : Listener.run now actions = some now') :
    Staffed subscribers now' ∧ t.charge now' + actions.countP RelayAction.isOwn
      ≤ t.charge now + actions.countP RelayAction.isPublication * price := by
  induction actions generalizing now with
  | nil =>
      cases hrun
      exact ⟨h, by simp⟩
  | cons a rest ih =>
      rcases Option.bind_eq_some_iff.mp hrun with ⟨next, hstep, hrest⟩
      rcases h.happen t hprice hstep with ⟨hnext, hcharge⟩
      rcases ih hnext hrest with ⟨hstaffed, hlater⟩
      refine ⟨hstaffed, ?_⟩
      rw [List.countP_cons, List.countP_cons, Nat.add_mul]
      have hfee : (if a.isPublication then price else 0)
          = (if a.isPublication then 1 else 0) * price := by
        split
        next => exact (Nat.one_mul price).symm
        next => exact (Nat.zero_mul price).symm
      omega

/-- If nothing more is published it all comes to rest. -/
theorem Staffed.rests (h : Staffed subscribers now) (t : Tariff subscribers) :
    ∃ more now', (∀ a ∈ more, a.isOwn = true) ∧ Listener.run now more = some now' ∧
      Resting now' := by
  induction hn : t.charge now using Nat.strong_induction_on generalizing now with
  | _ n ih =>
      by_cases hrest : Resting now
      · exact ⟨[], now, fun a ha => absurd ha List.not_mem_nil, rfl, hrest⟩
      · rcases not_forall.mp hrest with ⟨a, ha⟩
        rcases Classical.not_imp.mp ha with ⟨hown, hstep⟩
        rcases Option.ne_none_iff_exists'.mp hstep with ⟨next, hnext⟩
        rcases h.own t hown hnext with ⟨hstaffed, hcharge⟩
        rcases ih (t.charge next) (by omega) hstaffed rfl with ⟨more, now', hmore, hrun, hend⟩
        refine ⟨a :: more, now', fun b hb => ?_, ?_, hend⟩
        · rcases List.mem_cons.mp hb with rfl | hb
          · exact hown
          · exact hmore b hb
        · exact Option.bind_eq_some_iff.mpr ⟨next, hnext, hrun⟩

theorem staffed_start (capacity : Nat) (subscribers : List Subscriber) :
    Staffed subscribers (Relay.start capacity subscribers).now where
  staff := by
    change (subscribers.map fun s => ({ subscriber := s } : Lane)).map Lane.subscriber = subscribers
    rw [List.map_map]
    exact List.map_id subscribers
  apt := by
    intro l hl
    rcases List.mem_map.mp hl with ⟨s, _, rfl⟩
    exact ⟨fun e he => absurd he List.not_mem_nil,
      fun e he => absurd he.symm (Option.some_ne_none e), fun hgap => absurd rfl hgap⟩
  receiver := rfl
  listens := Nat.one_pos

end Listener

theorem Tariff.charge_start {subscribers : List Subscriber} (t : Tariff subscribers)
    (capacity : Nat) : t.charge (Relay.start capacity subscribers).now = 2 := by
  have hlanes : t.lanes (subscribers.map fun s => ({ subscriber := s } : Lane)) = 0 := by
    -- There is nothing on any of them yet.
    have hnone : (subscribers.map fun _ => 0).sum = 0 := by simp
    rw [Tariff.lanes, List.map_map]
    exact hnone
  have hcharge : t.charge (Relay.start capacity subscribers).now
      = 0 + 0 + t.lanes (subscribers.map fun s => ({ subscriber := s } : Lane)) + 2 := rfl
  rw [hcharge, hlanes]

/-- If no report of a panic brings about another, then whatever is published,
    and in whatever order the listener, the workers and others act, the steps
    of the listener and the workers and all events that are made, reports and
    markers included, are limited by what was published from outside. And once
    nothing more is published everything comes to rest. -/
theorem reports_die_out (capacity : Nat) {subscribers : List Subscriber}
    (hdamped : Damped subscribers) {actions : List RelayAction} {now : Listener.WithJournal}
    (hrun : Listener.run (Relay.start capacity subscribers).now actions = some now) :
    actions.countP RelayAction.isOwn + now.2.next
      ≤ actions.countP RelayAction.isPublication * (3 * (subscribers.length + 1) ^ 3) + 2 ∧
    ∃ more now', (∀ a ∈ more, a.isOwn = true) ∧ Listener.run now more = some now' ∧
      Listener.Resting now' := by
  rcases hdamped.tariff with ⟨t, hprice⟩
  have hstart := Listener.staffed_start capacity subscribers
  rcases hstart.run t hprice hrun with ⟨hstaffed, hcharge⟩
  refine ⟨?_, hstaffed.rests t⟩
  -- Each number that was drawn is part of the charge.
  have hmade : now.2.next ≤ t.charge now := by
    rw [Tariff.charge, Tariff.journal]
    omega
  rw [t.charge_start] at hcharge
  omega

/-- A subscriber that panics at everything but reports. -/
def touchy : Subscriber where
  name := "touchy"
  reaction := fun e => if e.notice.isPanic || e.notice.isOverflow then none else some .other

theorem damped_touchy : Damped [touchy] := by
  refine .inr fun s hs => ?_
  rw [List.mem_singleton.mp hs]
  have hcalm : ∀ e : Event, e.notice.isPanic || e.notice.isOverflow → touchy.reaction e = none :=
    fun e he => if_pos he
  constructor
  · rintro ⟨_, e, hkind, hpanics⟩
    refine hpanics (hcalm e ?_)
    rw [Bool.or_eq_true]
    exact .inl (beq_iff_eq.mpr hkind)
  · rintro ⟨_, e, hkind, hpanics⟩
    refine hpanics (hcalm e ?_)
    rw [Bool.or_eq_true]
    exact .inr (beq_iff_eq.mpr hkind)

/-- An event is received, taken off the queue and handed over. -/
def onceAround : List RelayAction :=
  [.act .receive, .act (.take 0), .act (.handle 0)]

/-- A panic, and the report of it, at which there is none. -/
theorem reports_die_out_touchy :
    Damped [touchy] ∧ ∃ now, Listener.run (Relay.start 4 [touchy]).now
        (.act (.publish { kind := .runtimeStarted }) :: onceAround ++ onceAround) = some now ∧
      6 + now.2.next ≤ 1 * (3 * (1 + 1) ^ 3) + 2 ∧
      ∃ more now', (∀ a ∈ more, a.isOwn = true) ∧ Listener.run now more = some now' ∧
        Listener.Resting now' := by
  refine ⟨damped_touchy, ?_⟩
  have hrun : (Listener.run (Relay.start 4 [touchy]).now
      (.act (.publish { kind := .runtimeStarted }) :: onceAround ++ onceAround)).isSome := rfl
  rcases Option.isSome_iff_exists.mp hrun with ⟨now, hnow⟩
  exact ⟨now, hnow, reports_die_out 4 damped_touchy hnow⟩

/-- A subscriber that panics at everything. -/
def desperate : Subscriber where
  name := "desperate"
  reaction := fun _ => some .other

/-- The bus of a listener that is its only receiver. -/
def loneBus (capacity : Nat) (log : Array Event) (position : Nat) : Bus :=
  { capacity, log, receivers := [some position] }

/-- A listener that forwards, in front of one subscriber with some events on
    its queue. -/
def loneListener (queue : List Event) : Listener :=
  { receiver := 0, lanes := [{ subscriber := desperate, queue }] }

theorem deliver_desperate (e : Event) (j : Journal) :
    (loneListener []).deliver e j = (loneListener [e], j) := by
  have haccepts : ({ subscriber := desperate } : Lane).accepts e.kind = true := by
    cases e.kind <;> rfl
  have hemit : emit [({ subscriber := desperate } : Lane)] e j
      = ([{ subscriber := desperate, queue := [e] }], j) := by
    rw [emit, if_pos haccepts]
    rfl
  exact congrArg (fun r => (({ receiver := 0, lanes := r.1 } : Listener), r.2)) hemit

/-- If only one event is left, then once around there is one left again: the
    report of the panic that the first was met with. -/
theorem run_onceAround (next : Nat) {capacity position : Nat} {log : Array Event}
    (hcapacity : 0 < capacity) (hsize : log.size = position + 1) :
    ∃ log' : Array Event, log'.size = position + 2 ∧
      Listener.run (loneListener [], { next, bus := loneBus capacity log position }) onceAround
        = some (loneListener [],
          { next := next + 1, bus := loneBus capacity log' (position + 1) }) := by
  have hlt : position < log.size := by omega
  have hin : ¬ position < log.size - capacity := by omega
  refine ⟨log.push ⟨next, .panicked "desperate" Panic.other.info⟩, ?_, ?_⟩
  · rw [Array.size_push, hsize]
  · have hgot : (loneBus capacity log position).receive 0
        = (.event log[position], loneBus capacity log (position + 1)) :=
      Bus.receive_event rfl hin hlt
    have hreceive : Listener.happen
          (loneListener [], { next, bus := loneBus capacity log position }) (.act .receive)
        = some ((loneListener []).deliver log[position]
          { next, bus := loneBus capacity log (position + 1) }) :=
      Listener.receive_of_event (l := loneListener []) ListenerPhase.noConfusion hgot
    rw [deliver_desperate] at hreceive
    exact Option.bind_eq_some_iff.mpr ⟨_, hreceive, rfl⟩

/-- And so on, for as long as one likes. -/
theorem run_around (rounds next : Nat) {capacity position : Nat} {log : Array Event}
    (hcapacity : 0 < capacity) (hsize : log.size = position + 1) :
    ∃ now', Listener.run (loneListener [], { next, bus := loneBus capacity log position })
      (List.replicate rounds onceAround).flatten = some now' := by
  induction rounds generalizing next position log with
  | zero => exact ⟨_, rfl⟩
  | succ rounds ih =>
      rcases run_onceAround next hcapacity hsize with ⟨log', hsize', hround⟩
      rcases ih (next + 1) hsize' with ⟨now', hrest⟩
      refine ⟨now', ?_⟩
      rw [List.replicate_succ, List.flatten_cons, Listener.run, List.foldlM_append]
      exact Option.bind_eq_some_iff.mpr ⟨_, hround, hrest⟩

/-- A subscriber that panics at the report of its own panic keeps everything
    busy: there is no limit to what follows from one event. -/
theorem panics_feed_themselves :
    ¬ ∀ (capacity : Nat) (subscribers : List Subscriber) (published : List Notice),
      ∃ bound, ∀ more now, (∀ a ∈ more, a.isOwn = true) →
        Listener.run (Relay.start capacity subscribers).now
          (published.map (fun n => .act (.publish n)) ++ more) = some now →
        more.length ≤ bound := by
  intro hrests
  rcases hrests 1 [desperate] [{ kind := .runtimeStarted }] with ⟨bound, hbound⟩
  have hcapacity : 0 < Bus.window 1 := Bus.window_pos 1
  have hsize : #[(⟨0, { kind := .runtimeStarted }⟩ : Event)].size = 0 + 1 := rfl
  -- Each time around takes three steps and makes the next one possible.
  rcases run_around (bound + 1) 1 hcapacity hsize with ⟨now, hrun⟩
  have hlength := hbound (List.replicate (bound + 1) onceAround).flatten now ?_ ?_
  · have hthree : onceAround.length = 3 := rfl
    rw [List.length_flatten, List.map_replicate, List.sum_replicate_nat, hthree] at hlength
    omega
  · intro a ha
    rcases List.mem_flatten.mp ha with ⟨round, hround, ha⟩
    rw [List.eq_of_mem_replicate hround] at ha
    have hown : onceAround.all RelayAction.isOwn = true := rfl
    exact List.all_eq_true.mp hown a ha
  · exact Option.bind_eq_some_iff.mpr ⟨_, rfl, hrun⟩

end SoftPlc
