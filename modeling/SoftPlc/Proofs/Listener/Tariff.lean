import SoftPlc.Proofs.Bus.Growth
import SoftPlc.Proofs.Lane.Outcomes
import Mathlib.Tactic.Ring

/-!
# The price of an event

What may still come of an event, in steps and in further events, depends on
its kind and on where it is: on the bus ahead of a receiver, on a queue, or in
the hand of a worker. A `Tariff` is a table of such prices in which each step
is paid for by the event that it is about, whatever is made in that step. The
price of an event ahead pays for its delivery to every lane, a delivery for the
event on the queue or the report that it was dropped, and the event in hand for
the report of a panic if there may be one.

Lines that are left out have no place of their own. The first of a gap pays for
the marker that will stand for all of them.

No table exists for subscribers that answer each report of a panic with
another. If they are `Damped` there is one, and two cases have to be told apart
for it, by which kind of report is the cheaper one. If nobody is told of panics
it is the report of a panic, and a report of a dropped event may be met with
one. Otherwise it is that of a dropped event, which is dropped in silence, and
a report of a panic may be dropped as well.

## Main definitions

* `Subscriber.PanicsAt`: A kind of event that it is given and may panic at.
* `Damped`: No report of a panic brings about another.
* `Tariff`: Prices that cover what comes of an event.
* `Tariff.charge`: The price of all there is.

## Theorems

* `Tariff.charge_deliver`, `Tariff.charge_emit`: What a delivery costs.
* `Tariff.bus_event`, `Tariff.bus_lagged`: What a receipt brings in.
* `Tariff.charge_take`, `Tariff.charge_handle`: What a worker spends.
* `Damped.tariff`: There are prices, and a limit to them.
-/

namespace SoftPlc

/-- It is given events of this kind and panics at one of them. -/
def Subscriber.PanicsAt (s : Subscriber) (k : EventKind) : Prop :=
  s.takes k = true ∧ ∃ e, e.kind = k ∧ s.reaction e ≠ none

/-- No report of a panic brings about another: nobody is told of panics, or
    nobody panics at a report. -/
def Damped (subscribers : List Subscriber) : Prop :=
  (∀ s ∈ subscribers, s.takes .subscriberPanicked = false) ∨
    ∀ s ∈ subscribers, ¬ s.PanicsAt .subscriberPanicked ∧ ¬ s.PanicsAt .subscriberOverflow

/-- Prices that cover what comes of an event: what each step makes is cheaper
    than what it is made of, by the step itself and the events made in it. -/
structure Tariff (subscribers : List Subscriber) where
  /-- The price of an event on the bus that the listener has not come to. -/
  ahead : EventKind → Nat
  /-- What may be spent on one lane that an event is delivered to. -/
  delivered : EventKind → Nat
  /-- The price of an event in the hand of a worker. -/
  held : EventKind → Nat
  received : ∀ k, (subscribers.countP fun s => s.takes k) * delivered k + 1 ≤ ahead k
  /-- It will be taken off the queue, and besides it a marker may be made. -/
  placed : ∀ k, held k + 2 ≤ delivered k
  /-- A line that is left out will be made good by a marker. -/
  skipped : held .compileOutputSkipped + 2 ≤ delivered .compileOutput
  /-- A report is published, and a marker may have been made in vain. -/
  dropped : ∀ s ∈ subscribers, ∀ k, s.takes k = true → k ≠ .subscriberOverflow →
    ahead .subscriberOverflow + 2 ≤ delivered k
  handled : ∀ k, 1 ≤ held k
  panicked : ∀ s ∈ subscribers, ∀ k, s.PanicsAt k → ahead .subscriberPanicked + 2 ≤ held k

/-- How often the listener may still change over. -/
def ListenerPhase.left : ListenerPhase → Nat
  | forwarding => 2
  | draining => 1
  | ended => 0

namespace Tariff

variable {subscribers : List Subscriber} (t : Tariff subscribers)

/-- The price of an event on a queue. -/
def queued (k : EventKind) : Nat :=
  t.held k + 1

/-- What may come of what a lane holds, and of the lines it has left out. -/
def lane (l : Lane) : Nat :=
  (l.queue.map fun e => t.queued e.kind).sum + (l.inHand.elim 0 fun e => t.held e.kind)
    + if l.skipped = 0 then 0 else t.queued .compileOutputSkipped

/-- What may come of what the lanes hold. -/
def lanes (ls : List Lane) : Nat :=
  (ls.map t.lane).sum

/-- What may come of what a receiver has ahead of it. -/
def bus (receiver : Nat) (b : Bus) : Nat :=
  match b.receivers[receiver]? with
  | some (some position) => ((b.log.toList.drop position).map fun e => t.ahead e.kind).sum
  | _ => 0

/-- The events made so far, and what may come of those ahead. -/
def journal (receiver : Nat) (j : Journal) : Nat :=
  j.next + t.bus receiver j.bus

/-- The events made so far, and what may come of everything there is. -/
def charge (now : Listener.WithJournal) : Nat :=
  t.journal now.1.receiver now.2 + t.lanes now.1.lanes + now.1.phase.left

theorem ahead_pos (k : EventKind) : 1 ≤ t.ahead k :=
  Nat.le_trans (Nat.le_add_left 1 _) (t.received k)

theorem bus_of_stands {receiver position : Nat} {b : Bus}
    (h : b.receivers[receiver]? = some (some position)) :
    t.bus receiver b = ((b.log.toList.drop position).map fun e => t.ahead e.kind).sum := by
  rw [bus, h]

theorem bus_publish (receiver : Nat) (b : Bus) (e : Event) :
    t.bus receiver (b.publish e) ≤ t.bus receiver b + t.ahead e.kind := by
  unfold Bus.publish
  split
  next => exact Nat.le_add_right _ _
  next =>
    unfold bus
    dsimp only
    split
    next position _ =>
      rw [Array.toList_push, List.drop_append, List.map_append, List.sum_append]
      refine Nat.add_le_add_left ?_ _
      -- The new entry is ahead of whoever has read no more than there was.
      rcases position - b.log.toList.length with _ | n
      · simp
      · simp
    next => exact Nat.zero_le _

/-- What is published is charged as an event that is still ahead. -/
theorem journal_publish (receiver : Nat) (j : Journal) (n : Notice) :
    t.journal receiver (j.publish n) ≤ t.journal receiver j + t.ahead n.kind + 1 := by
  have hbus := t.bus_publish receiver j.bus ⟨j.next, n⟩
  have hkind : (⟨j.next, n⟩ : Event).kind = n.kind := rfl
  have hleft : t.journal receiver (j.publish n)
      = j.next + 1 + t.bus receiver (j.bus.publish ⟨j.next, n⟩) := rfl
  rw [hkind] at hbus
  rw [hleft, journal]
  omega

theorem journal_reportDrop (receiver : Nat) (l : Lane) (e : Event) (reason : String)
    (j : Journal) (hl : l.subscriber ∈ subscribers) (he : l.subscriber.takes e.kind = true) :
    t.journal receiver (l.reportDrop e reason j) + 1
      ≤ t.journal receiver j + t.delivered e.kind := by
  unfold Lane.reportDrop
  split
  next =>
    have hplaced := t.placed e.kind
    omega
  next hoverflow =>
    have hne : e.kind ≠ .subscriberOverflow := fun hk => hoverflow (beq_iff_eq.mpr hk)
    have hdropped := t.dropped l.subscriber hl e.kind he hne
    have hpublish := t.journal_publish receiver j (.overflow l.subscriber.name reason)
    have hkind : (Notice.overflow l.subscriber.name reason).kind = .subscriberOverflow := rfl
    rw [hkind] at hpublish
    omega

theorem lane_queue_append (l : Lane) (e : Event) :
    t.lane { l with queue := l.queue ++ [e] } = t.lane l + t.queued e.kind := by
  unfold lane
  dsimp only
  rw [List.map_append, List.sum_append, List.map_singleton, List.sum_singleton]
  omega

/-- One part of what may be spent on a lane is left for the marker. -/
theorem charge_settles (receiver : Nat) {l : Lane} {e : Event} {j : Journal}
    {r : Lane × Journal} (hr : l.Settles e j r) (hl : l.subscriber ∈ subscribers)
    (he : l.subscriber.takes e.kind = true) :
    t.lane r.1 + t.journal receiver r.2 + 1
      ≤ t.lane l + t.journal receiver j + t.delivered e.kind := by
  cases hr with
  | placed =>
      have hplaced := t.placed e.kind
      rw [lane_queue_append, queued]
      dsimp only
      omega
  | skipped hline =>
      have hkind : e.kind = .compileOutput := eq_of_beq hline
      have hskipped := t.skipped
      have hlane : t.lane { l with skipped := l.skipped + 1 }
          ≤ t.lane l + t.queued .compileOutputSkipped := by
        unfold lane
        dsimp only
        rw [if_neg (Nat.succ_ne_zero l.skipped)]
        omega
      rw [hkind]
      rw [queued] at hlane
      dsimp only
      omega
  | dropped reason =>
      have hreport := t.journal_reportDrop receiver l e reason j hl he
      dsimp only
      omega

/-- The price of a delivery covers what it places and what it reports. -/
theorem charge_deliver (receiver : Nat) (l : Lane) (e : Event) (j : Journal)
    (hl : l.subscriber ∈ subscribers) (he : l.subscriber.takes e.kind = true) :
    t.lane (l.deliver e j).1 + t.journal receiver (l.deliver e j).2
      ≤ t.lane l + t.journal receiver j + t.delivered e.kind := by
  have hmade : t.journal receiver { j with next := j.next + 1 } = t.journal receiver j + 1 := by
    unfold journal
    dsimp only
    omega
  rcases l.deliver_cases e j with hr | ⟨_, hr⟩ | ⟨hskipped, marker, hmarker, hr⟩
  · have hcharge := t.charge_settles receiver hr hl he
    omega
  · have hcharge := t.charge_settles receiver hr hl he
    omega
  · -- The marker was paid for when the first of its lines was left out.
    have hlane : t.lane { l with queue := l.queue ++ [marker], skipped := 0 } = t.lane l := by
      unfold lane
      dsimp only
      rw [List.map_append, List.sum_append, List.map_singleton, List.sum_singleton, hmarker,
        if_pos rfl, if_neg hskipped]
      omega
    have hcharge := t.charge_settles receiver hr hl he
    omega

/-- What an emission costs is covered by the price of the event. -/
theorem charge_emit (receiver : Nat) (ls : List Lane) (e : Event) (j : Journal)
    (hls : ∀ l ∈ ls, l.subscriber ∈ subscribers) :
    t.lanes (emit ls e j).1 + t.journal receiver (emit ls e j).2
      ≤ t.lanes ls + t.journal receiver j
        + (ls.countP fun l => l.subscriber.takes e.kind) * t.delivered e.kind := by
  induction ls generalizing j with
  | nil => exact Nat.le_add_right _ _
  | cons l rest ih =>
      have hrest := fun j => ih j fun l hmem => hls l (List.mem_cons_of_mem _ hmem)
      rw [emit, List.countP_cons]
      dsimp only
      by_cases he : l.subscriber.takes e.kind = true
      · have haccepts : l.accepts e.kind = true := he
        have hdeliver := t.charge_deliver receiver l e j (hls l List.mem_cons_self) he
        have hemit := hrest (l.deliver e j).2
        rw [if_pos haccepts, if_pos he, Nat.add_mul, Nat.one_mul]
        simp only [lanes, List.map_cons, List.sum_cons] at hemit ⊢
        omega
      · have haccepts : ¬ l.accepts e.kind = true := he
        have hemit := hrest j
        rw [if_neg haccepts, if_neg he, Nat.add_zero]
        simp only [lanes, List.map_cons, List.sum_cons] at hemit ⊢
        omega

/-- What the listener has come to is not ahead of it any more. -/
theorem bus_event {receiver position : Nat} {b : Bus} {e : Event}
    (hstands : b.receivers[receiver]? = some (some position))
    (hentry : b.log.toList[position]? = some e) :
    t.bus receiver { b with receivers := b.receivers.set receiver (some (position + 1)) }
      + t.ahead e.kind = t.bus receiver b := by
  have hlt : receiver < b.receivers.length := (List.getElem?_eq_some_iff.mp hstands).1
  rcases List.getElem?_eq_some_iff.mp hentry with ⟨hposition, rfl⟩
  rw [t.bus_of_stands hstands, t.bus_of_stands (List.getElem?_set_self hlt),
    List.drop_eq_getElem_cons hposition, List.map_cons, List.sum_cons]
  exact Nat.add_comm _ _

/-- A lag costs less than the events that it passes over, so it pays for itself. -/
theorem bus_lagged {receiver position : Nat} {b : Bus}
    (hstands : b.receivers[receiver]? = some (some position)) (hlag : position < b.oldest) :
    t.bus receiver { b with receivers := b.receivers.set receiver (some b.oldest) } + 1
      ≤ t.bus receiver b := by
  have hlt : receiver < b.receivers.length := (List.getElem?_eq_some_iff.mp hstands).1
  have hsize : position < b.log.toList.length := by
    rw [Array.length_toList]
    exact Nat.lt_of_lt_of_le hlag (Nat.sub_le _ _)
  -- One entry at least has been overwritten, and it had its price.
  have hrest : b.log.toList.drop b.oldest
      = (b.log.toList.drop (position + 1)).drop (b.oldest - (position + 1)) := by
    rw [List.drop_drop, Nat.add_sub_cancel' hlag]
  have hsplit := congrArg (fun events : List Event => (events.map fun e => t.ahead e.kind).sum)
    (List.take_append_drop (b.oldest - (position + 1)) (b.log.toList.drop (position + 1)))
  simp only [List.map_append, List.sum_append] at hsplit
  have hpos := t.ahead_pos b.log.toList[position].kind
  rw [t.bus_of_stands hstands, t.bus_of_stands (List.getElem?_set_self hlt), hrest,
    List.drop_eq_getElem_cons hsize, List.map_cons, List.sum_cons]
  omega

/-- Nothing is ahead of a listener that has left. -/
theorem bus_unsubscribe (receiver : Nat) (b : Bus) :
    t.bus receiver (b.unsubscribe receiver) = 0 := by
  unfold bus Bus.unsubscribe
  dsimp only
  by_cases hlt : receiver < b.receivers.length
  · rw [List.getElem?_set_self hlt]
  · rw [List.getElem?_eq_none (by rw [List.length_set]; exact Nat.le_of_not_lt hlt)]

/-- An event in hand costs less than the same event on the queue. -/
theorem charge_take (l : Lane) (h : (l.inHand.isNone && !l.queue.isEmpty) = true) :
    t.lane l.take + 1 ≤ t.lane l := by
  rcases Bool.and_eq_true_iff.mp h with ⟨hfree, hqueue⟩
  have hnone : l.inHand = none := Option.isNone_iff_eq_none.mp hfree
  rcases hq : l.queue with _ | ⟨e, rest⟩
  · rw [hq] at hqueue
    exact absurd hqueue Bool.false_ne_true
  · have htake : l.take = { l with inHand := some e, queue := rest } := by
      rw [Lane.take, hnone, hq]
    have hqueued : t.queued e.kind = t.held e.kind + 1 := rfl
    rw [htake, lane, lane, hnone, hq, List.map_cons, List.sum_cons]
    dsimp only [Option.elim]
    omega

/-- The price of an event in hand covers the report that its subscriber panics
    on it. -/
theorem charge_handle (receiver : Nat) {l : Lane} (j : Journal) (hl : l.subscriber ∈ subscribers)
    (hapt : l.Apt) (h : l.inHand.isSome = true) :
    t.lane (l.handle j).1 + t.journal receiver (l.handle j).2 + 1
      ≤ t.lane l + t.journal receiver j := by
  rcases Option.isSome_iff_exists.mp h with ⟨e, he⟩
  have hlane : t.lane { l with inHand := none } + t.held e.kind = t.lane l := by
    unfold lane
    rw [he]
    dsimp only [Option.elim]
    omega
  unfold Lane.handle
  rw [he]
  dsimp only
  split
  next =>
    have hhandled := t.handled e.kind
    dsimp only
    omega
  next panic hreaction =>
    have hpanics : l.subscriber.PanicsAt e.kind :=
      ⟨hapt.inHand e he, e, rfl, by rw [hreaction]; exact Option.some_ne_none panic⟩
    have hpanicked := t.panicked l.subscriber hl e.kind hpanics
    have hpublish := t.journal_publish receiver j (.panicked l.subscriber.name panic.info)
    have hkind : (Notice.panicked l.subscriber.name panic.info).kind = .subscriberPanicked := rfl
    rw [hkind] at hpublish
    dsimp only
    omega

/-- If one lane changes, the charge of all changes by as much. -/
theorem lanes_set {ls : List Lane} {i : Nat} {l : Lane} (h : ls[i]? = some l) (l' : Lane) :
    t.lanes (ls.set i l') + t.lane l = t.lanes ls + t.lane l' := by
  induction ls generalizing i with
  | nil => exact absurd h (Option.some_ne_none l).symm
  | cons first rest ih =>
      cases i with
      | zero =>
          rw [← Option.some.inj h]
          simp only [lanes, List.set_cons_zero, List.map_cons, List.sum_cons]
          omega
      | succ i =>
          have hrest := ih h
          simp only [lanes, List.set_cons_succ, List.map_cons, List.sum_cons] at hrest ⊢
          omega

/-- Closing a lane costs nothing. -/
theorem lane_close (l : Lane) : t.lane l.close = t.lane l := by
  unfold Lane.close
  split
  next => rfl
  next => rfl

end Tariff

/-- One number for reports of panics, one for those of dropped events and one
    for all else. -/
def EventKind.select (panicked dropped other : Nat) : EventKind → Nat
  | subscriberPanicked => panicked
  | subscriberOverflow => dropped
  | _ => other

theorem EventKind.select_cases (k : EventKind) :
    k = subscriberPanicked ∨ k = subscriberOverflow ∨
      ∀ panicked dropped other, select panicked dropped other k = other := by
  cases k <;> simp [select]

namespace Tariff

variable {subscribers : List Subscriber}

/-- The prices if nobody is told of panics. -/
def untold (h : ∀ s ∈ subscribers, s.takes .subscriberPanicked = false) :
    Tariff subscribers :=
  let n := subscribers.length
  { ahead := EventKind.select 1 (5 * n + 1) (5 * n + 5 * (n * n) + 1)
    delivered := EventKind.select (5 * n + 5) 5 (5 * n + 5)
    held := fun _ => 3
    received := by
      intro k
      have hle : (subscribers.countP fun s => s.takes k) ≤ n := List.countP_le_length
      rcases k.select_cases with rfl | rfl | hother
      · have hnone : (subscribers.countP fun s => s.takes .subscriberPanicked) = 0 := by
          rw [List.countP_eq_zero]
          intro s hs
          rw [h s hs]
          exact Bool.false_ne_true
        rw [hnone]
        simp [EventKind.select]
      · simp only [EventKind.select]
        omega
      · rw [hother, hother]
        have hmul := Nat.mul_le_mul_right (5 * n + 5) hle
        have hsquare : n * (5 * n + 5) = 5 * n + 5 * (n * n) := by ring
        omega
    placed := by
      intro k
      rcases k.select_cases with rfl | rfl | hother
      · simp [EventKind.select]
      · simp [EventKind.select]
      · rw [hother]
        omega
    skipped := by simp [EventKind.select]
    dropped := by
      intro s hs k htakes hne
      rcases k.select_cases with rfl | rfl | hother
      · simp [EventKind.select]
      · exact absurd rfl hne
      · rw [hother]
        simp [EventKind.select]
    handled := fun _ => by decide
    panicked := fun _ _ _ _ => Nat.le_refl _ }

/-- The prices if nobody panics at a report. -/
def unmoved (h : ∀ s ∈ subscribers,
    ¬ s.PanicsAt .subscriberPanicked ∧ ¬ s.PanicsAt .subscriberOverflow) : Tariff subscribers :=
  let n := subscribers.length
  let p := 3 * n + 3 * (n * n) + 1
  { ahead := EventKind.select p (3 * n + 1) (n * (p + 4) + 1)
    delivered := EventKind.select (3 * n + 3) 3 (p + 4)
    held := EventKind.select 1 1 (p + 2)
    received := by
      intro k
      have hle : (subscribers.countP fun s => s.takes k) ≤ n := List.countP_le_length
      have hmul := fun m => Nat.mul_le_mul_right m hle
      rcases k.select_cases with rfl | rfl | hother
      · have hsquare : n * (3 * n + 3) + 1 = p := by ring
        exact Nat.le_trans (Nat.add_le_add_right (hmul (3 * n + 3)) 1) (Nat.le_of_eq hsquare)
      · simp only [EventKind.select]
        omega
      · rw [hother, hother]
        exact Nat.add_le_add_right (hmul (p + 4)) 1
    placed := by
      intro k
      rcases k.select_cases with rfl | rfl | hother
      · simp [EventKind.select]
      · simp [EventKind.select]
      · rw [hother, hother]
    skipped := Nat.le_refl _
    dropped := by
      intro s hs k htakes hne
      rcases k.select_cases with rfl | rfl | hother
      · simp [EventKind.select]
      · exact absurd rfl hne
      · rw [hother]
        simp only [EventKind.select]
        omega
    handled := by
      intro k
      rcases k.select_cases with rfl | rfl | hother
      · simp [EventKind.select]
      · simp [EventKind.select]
      · rw [hother]
        exact Nat.succ_pos _
    panicked := by
      intro s hs k hpanics
      rcases k.select_cases with rfl | rfl | hother
      · exact absurd hpanics (h s hs).1
      · exact absurd hpanics (h s hs).2
      · rw [hother]
        exact Nat.le_refl _ }

end Tariff

/-- If no report of a panic brings about another there are prices, and they
    grow with the cube of the number of subscribers. -/
theorem Damped.tariff {subscribers : List Subscriber} (h : Damped subscribers) :
    ∃ t : Tariff subscribers, ∀ k, t.ahead k + 1 ≤ 3 * (subscribers.length + 1) ^ 3 := by
  have hcube : 3 * (subscribers.length + 1) ^ 3
      = 3 * (subscribers.length * (subscribers.length * subscribers.length))
        + 9 * (subscribers.length * subscribers.length) + 9 * subscribers.length + 3 := by
    ring
  rw [hcube]
  rcases h with huntold | hunmoved
  · refine ⟨.untold huntold, fun k => ?_⟩
    rcases k.select_cases with rfl | rfl | hother
    · simp only [Tariff.untold, EventKind.select]
      omega
    · simp only [Tariff.untold, EventKind.select]
      omega
    · simp only [Tariff.untold, hother]
      omega
  · refine ⟨.unmoved hunmoved, fun k => ?_⟩
    rcases k.select_cases with rfl | rfl | hother
    · simp only [Tariff.unmoved, EventKind.select]
      omega
    · simp only [Tariff.unmoved, EventKind.select]
      omega
    · simp only [Tariff.unmoved, hother]
      have hproduct : subscribers.length * (3 * subscribers.length
          + 3 * (subscribers.length * subscribers.length) + 1 + 4)
          = 5 * subscribers.length + 3 * (subscribers.length * subscribers.length)
            + 3 * (subscribers.length * (subscribers.length * subscribers.length)) := by
        ring
      omega

end SoftPlc
