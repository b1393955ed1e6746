import SoftPlc.Proofs.Listener.Receipts

/-!
# What the listener hands on

Every event on the bus is meant to be handed to the lanes once, in the order of
publication, unless the ring has overwritten it before the listener came to it.
What it came to, and whether that was still there, is written down entry by
entry in `Relay.passed`, so that the account is one of positions in the log and
not of events, which may be equal.

While the listener forwards, a lag costs what was overwritten and nothing else.
While it drains, the first receipt without an event ends it, and a lag is such
a receipt: the listener closes the lanes although a full window stands ahead of
it. So an ended run is accounted for entirely if and only if the receipt that
ended it was not a lag. The listener can be behind already when it is told to
end. But it may also fall behind while it drains, by the reports of the very
lanes that it hands an event to.

Of what is retained at a moment nothing is lost afterwards but what is
overwritten afterwards, if the draining does not end at a lag. For this, what
was overwritten before has to be told from it: `Onward.stale`.

## Main definitions

* `RelayAction`: Something that happens around the listener.
* `Relay`: The listener, and what was noted of its receipts.
* `Relay.retained`: What the listener can still receive.
* `Relay.Next`: What may come next.
* `Relay.Sound`: The notes agree with the log.
* `Relay.Onward`: One moment of a run is before another.

## Theorems

* `next_see`: Whatever happens is one of the things that may come next.
* `sound_after`, `onward_after`: What runs keep.
* `relayed_iff`: When everything is accounted for.
* `retained_left_behind`: A run in which something is not.
-/

namespace SoftPlc

/-- Something that happens to the listener, its lanes and its bus. -/
inductive RelayAction where
  | act (action : DeliveryAction)
  /-- Others subscribe to the bus, receive from it, or leave it. -/
  | others (receivers : List (Option Nat))
  deriving Repr

/-- An entry of the log that the listener has come to. -/
structure LogEntry where
  event : Event
  /-- It had not been overwritten. -/
  kept : Bool
  deriving DecidableEq, Repr

/-- The listener, and what was noted of its receipts. -/
structure Relay where
  now : Listener.WithJournal
  /-- The entries that it has come to, in order. -/
  passed : List LogEntry := []
  /-- The events that it has handed to the lanes, in order. -/
  emitted : List Event := []
  /-- The receipt that ended the draining. -/
  finale : Option Received := none

/-- The events that were still there. -/
def LogEntry.keptEvents (entries : List LogEntry) : List Event :=
  (entries.filter LogEntry.kept).map LogEntry.event

/-- Events that were not. -/
def LogEntry.overwritten (events : List Event) : List LogEntry :=
  events.map (⟨·, false⟩)

namespace Relay

/-- A new bus, with the listener as its first receiver. -/
def start (capacity : Nat) (subscribers : List Subscriber) : Relay :=
  let (receiver, bus) := (Bus.ofCapacity capacity).subscribe
  { now := ({ receiver, lanes := subscribers.map fun s => { subscriber := s } }, { bus }) }

/-- Where the listener stands. -/
def phase (w : Relay) : ListenerPhase :=
  w.now.1.phase

/-- The bus it receives from. -/
def bus (w : Relay) : Bus :=
  w.now.2.bus

/-- Everything published so far. -/
def log (w : Relay) : List Event :=
  w.bus.log.toList

/-- What the listener has not come to and can still receive. -/
def retained (w : Relay) : List Event :=
  w.log.drop (max w.passed.length w.bus.oldest)

/-- The listener has received, and stands elsewhere now. -/
def note (w : Relay) (now : Listener.WithJournal) : Received → Relay
  | .event e => { w with now, passed := w.passed ++ [⟨e, true⟩], emitted := w.emitted ++ [e] }
  | .lagged n =>
    { w with
      now
      passed := w.passed ++ LogEntry.overwritten ((w.log.drop w.passed.length).take n)
      finale := if w.phase = .draining then some (.lagged n) else none }
  | got => { w with now, finale := if w.phase = .draining then some got else none }

/-- Something happens, if it can. The listener is watched until it has ended. -/
def see (w : Relay) : RelayAction → Relay
  | .others receivers =>
    { w with now := (w.now.1, { w.now.2 with
        bus := { w.bus with receivers := w.bus.receivers.take 1 ++ receivers } }) }
  | .act action =>
    if w.phase = .ended then w
    else match Listener.step w.now action with
      | none => w
      | some now =>
        match action with
        | .receive => w.note now (w.bus.receive w.now.1.receiver).1
        | _ => { w with now }

/-- Several things happen in order. -/
def after (w : Relay) (actions : List RelayAction) : Relay :=
  actions.foldl see w

end Relay

namespace LogEntry

theorem keptEvents_append (a b : List LogEntry) :
    keptEvents (a ++ b) = keptEvents a ++ keptEvents b := by
  rw [keptEvents, List.filter_append, List.map_append]
  rfl

theorem keptEvents_of_stale {entries : List LogEntry} (h : ∀ e ∈ entries, e.kept = false) :
    keptEvents entries = [] := by
  have hfilter : entries.filter LogEntry.kept = [] := by
    rw [List.filter_eq_nil_iff]
    intro e he hkept
    rw [h e he] at hkept
    exact Bool.false_ne_true hkept
  rw [keptEvents, hfilter]
  rfl

theorem keptEvents_of_kept {entries : List LogEntry} (h : ∀ e ∈ entries, e.kept = true) :
    keptEvents entries = entries.map LogEntry.event := by
  rw [keptEvents, List.filter_eq_self.mpr h]

theorem event_overwritten (events : List Event) :
    (overwritten events).map LogEntry.event = events := by
  rw [overwritten, List.map_map]
  exact List.map_id events

theorem length_overwritten (events : List Event) :
    (overwritten events).length = events.length :=
  List.length_map _

theorem kept_overwritten {events : List Event} {e : LogEntry} (h : e ∈ overwritten events) :
    e.kept = false := by
  rcases List.mem_map.mp h with ⟨_, _, rfl⟩
  rfl

/-- What has been overwritten is not handed on. -/
theorem keptEvents_append_overwritten (entries : List LogEntry) (events : List Event) :
    keptEvents (entries ++ overwritten events) = keptEvents entries := by
  have hstale : keptEvents (overwritten events) = [] :=
    keptEvents_of_stale fun _ he => kept_overwritten he
  rw [keptEvents_append, hstale, List.append_nil]

end LogEntry

namespace Relay

open Listener (Standing)

variable {w w' : Relay}

/-- What may come next. -/
inductive Next (w : Relay) : Relay → Prop where
  /-- The listener has received nothing. -/
  | aside (now : Listener.WithJournal)
      (live : w.phase ≠ .ended → Standing now w.passed.length)
      (ended : w.phase = .ended → now.1.phase = .ended ∧ now.2.bus.log = w.bus.log)
      (log : w.log <+: now.2.bus.log.toList) (capacity : now.2.bus.capacity = w.bus.capacity) :
      Next w { w with now }
  /-- It has received the entry that it stood at. -/
  | event (now : Listener.WithJournal) (e : Event) (hin : w.bus.oldest ≤ w.passed.length)
      (entry : w.log[w.passed.length]? = some e) (live : Standing now (w.passed.length + 1))
      (log : w.log <+: now.2.bus.log.toList) (capacity : now.2.bus.capacity = w.bus.capacity) :
      Next w (w.note now (.event e))
  /-- It has received a lag and continues. -/
  | lag (now : Listener.WithJournal) (hlag : w.passed.length < w.bus.oldest)
      (forwarding : w.phase = .forwarding) (live : Standing now w.bus.oldest)
      (log : now.2.bus.log = w.bus.log) (capacity : now.2.bus.capacity = w.bus.capacity) :
      Next w (w.note now (.lagged (w.bus.oldest - w.passed.length)))
  /-- It has received a lag and ended. -/
  | endAtLag (now : Listener.WithJournal) (hlag : w.passed.length < w.bus.oldest)
      (draining : w.phase = .draining) (ended : now.1.phase = .ended)
      (log : now.2.bus.log = w.bus.log) (capacity : now.2.bus.capacity = w.bus.capacity) :
      Next w (w.note now (.lagged (w.bus.oldest - w.passed.length)))
  /-- There was nothing more and it has ended. -/
  | endAtLast (now : Listener.WithJournal) (hall : w.bus.log.size ≤ w.passed.length)
      (draining : w.phase = .draining) (ended : now.1.phase = .ended)
      (log : now.2.bus.log = w.bus.log) (capacity : now.2.bus.capacity = w.bus.capacity) :
      Next w (w.note now .empty)

/-- The notes agree with the log. -/
structure Sound (w : Relay) : Prop where
  live : w.phase ≠ .ended → Standing w.now w.passed.length
  passed : w.passed.map LogEntry.event <+: w.log
  emitted : w.emitted = LogEntry.keptEvents w.passed
  window : 0 < w.bus.capacity
  lost : ∀ i e, w.passed[i]? = some e → e.kept = false → i < w.bus.oldest
  ended : w.phase = .ended → w.finale = some .empty ∧ w.passed.map LogEntry.event = w.log ∨
    ∃ n, w.finale = some (.lagged n) ∧ w.passed.length + w.bus.capacity = w.log.length

theorem length_log (w : Relay) : w.log.length = w.bus.log.size :=
  Array.length_toList

/-- Writing down what was received changes nothing on the bus. -/
theorem log_note (w : Relay) (now : Listener.WithJournal) (got : Received) :
    (w.note now got).log = now.2.bus.log.toList := by
  cases got <;> rfl

theorem Next.idle (h : w.Sound) : Next w w :=
  .aside w.now h.live (fun hended => ⟨hended, rfl⟩) List.prefix_rfl rfl

/-- Until it has ended the listener writes down what it receives. -/
theorem see_receive (hlive : w.phase ≠ .ended) :
    w.see (.act .receive) = match Listener.receive w.now with
      | none => w
      | some now => w.note now (w.bus.receive w.now.1.receiver).1 := by
  rw [see, if_neg hlive]
  rfl

theorem next_receive (h : w.Sound) (hlive : w.phase ≠ .ended) :
    Next w (w.see (.act .receive)) := by
  have hs := h.live hlive
  rw [see_receive hlive]
  -- The receiver finds out about a lag before anything else.
  by_cases hlag : w.passed.length < w.bus.oldest
  · have hgot : (w.bus.receive w.now.1.receiver).1 = .lagged (w.bus.oldest - w.passed.length) :=
      congrArg Prod.fst (Bus.receive_lagged hs.at_receiver hlag)
    rw [hgot]
    cases hphase : w.phase with
    | forwarding =>
        rcases hs.receive_lag hphase hlag with ⟨now', hnow, hs', hlog, hcapacity⟩
        rw [hnow]
        exact .lag now' hlag hphase hs' hlog hcapacity
    | draining =>
        rcases hs.receive_end hphase (.inl hlag) with ⟨now', hnow, hended, hlog, hcapacity⟩
        rw [hnow]
        exact .endAtLag now' hlag hphase hended hlog hcapacity
    | ended => exact absurd hphase hlive
  · by_cases hsize : w.passed.length < w.bus.log.size
    · have hgot : (w.bus.receive w.now.1.receiver).1 = .event w.bus.log[w.passed.length] :=
        congrArg Prod.fst (Bus.receive_event hs.at_receiver hlag hsize)
      have hentry : w.log[w.passed.length]? = some w.bus.log[w.passed.length] := by
        rw [log, Array.getElem?_toList, Array.getElem?_eq_getElem hsize]
      rw [hgot]
      rcases hs.receive_event hlag hsize with ⟨now', hnow, hs', hlog, hcapacity⟩
      rw [hnow]
      exact .event now' _ (Nat.le_of_not_lt hlag) hentry hs' hlog hcapacity
    · have hall : w.bus.log.size ≤ w.passed.length := Nat.le_of_not_lt hsize
      have hgot : w.bus.receive w.now.1.receiver = (.empty, w.bus) :=
        Bus.receive_empty hs.at_receiver hs.opened hlag hall
      rw [hgot]
      cases hphase : w.phase with
      | forwarding =>
          rw [Listener.receive_of_empty hphase hgot]
          exact .idle h
      | draining =>
          rcases hs.receive_end hphase (.inr hall) with ⟨now', hnow, hended, hlog, hcapacity⟩
          rw [hnow]
          exact .endAtLast now' hall hphase hended hlog hcapacity
      | ended => exact absurd hphase hlive

/-- Whatever happens is one of the things that may come next. -/
theorem next_see (h : w.Sound) (a : RelayAction) : Next w (w.see a) := by
  cases a with
  | others receivers =>
      refine .aside _ (fun hlive => ?_) (fun hended => ⟨hended, rfl⟩) List.prefix_rfl rfl
      have hs := h.live hlive
      refine ⟨hs.live, hs.lanes, hs.receiver, ?_, hs.opened, hs.capacity⟩
      -- The first receiver is the listener's, and the others have no say in it.
      rcases hrest : w.bus.receivers with _ | ⟨first, rest⟩
      · have hstands := hs.stands
        rw [show w.now.2.bus.receivers = [] from hrest] at hstands
        exact absurd hstands (by simp only [List.getElem?_nil, reduceCtorEq, not_false_eq_true])
      · have hstands := hs.stands
        rw [show w.now.2.bus.receivers = first :: rest from hrest] at hstands
        exact hstands
  | act action =>
      by_cases hlive : w.phase = .ended
      · rw [see, if_pos hlive]
        exact .idle h
      · by_cases hreceive : action = .receive
        · rw [hreceive]
          exact next_receive h hlive
        · rw [see, if_neg hlive]
          rcases hstep : Listener.step w.now action with _ | now'
          · exact .idle h
          · rcases (h.live hlive).step hreceive hstep with ⟨hs, hgrows⟩
            have hnext : Next w { w with now := now' } :=
              .aside now' (fun _ => hs) (fun hended => absurd hended hlive) hgrows.log
                hgrows.capacity
            cases action with
            | receive => exact absurd rfl hreceive
            | publish notice => exact hnext
            | stop => exact hnext
            | take i => exact hnext
            | handle i => exact hnext

theorem sound_start (capacity : Nat) (subscribers : List Subscriber) :
    (start capacity subscribers).Sound where
  live := fun _ => {
    live := by simp [start]
    lanes := by
      intro l hl
      rcases List.mem_map.mp hl with ⟨s, _, rfl⟩
      rfl
    receiver := rfl
    stands := rfl
    opened := rfl
    capacity := Bus.window_pos _ }
  passed := List.nil_prefix
  emitted := rfl
  window := Bus.window_pos _
  lost := fun i e he => absurd he (by simp [start])
  ended := fun h => absurd h (by simp [start, phase])

/-- A lag takes the listener to the start of the window. -/
theorem Sound.skipped (h : w.Sound) (hlag : w.passed.length < w.bus.oldest) :
    (w.passed ++ LogEntry.overwritten ((w.log.drop w.passed.length).take
      (w.bus.oldest - w.passed.length))).map LogEntry.event = w.log.take w.bus.oldest := by
  have hpassed : w.passed.map LogEntry.event = w.log.take w.passed.length := by
    have hp := List.prefix_iff_eq_take.mp h.passed
    rwa [List.length_map] at hp
  rw [List.map_append, LogEntry.event_overwritten, hpassed, ← List.take_add,
    Nat.add_sub_of_le (Nat.le_of_lt hlag)]

theorem length_skipped (w : Relay) (hlag : w.passed.length < w.bus.oldest) :
    (w.passed ++ LogEntry.overwritten ((w.log.drop w.passed.length).take
      (w.bus.oldest - w.passed.length))).length = w.bus.oldest := by
  have holdest : w.bus.oldest ≤ w.log.length := by
    rw [length_log]
    exact Nat.sub_le _ _
  rw [List.length_append, LogEntry.length_overwritten, List.length_take, List.length_drop]
  omega

theorem Next.log_grows (hnext : Next w w') : w.log <+: w'.log := by
  cases hnext with
  | aside now live ended log capacity => exact log
  | event now e hin entry live log capacity => exact log
  | lag now hlag forwarding live log capacity =>
      rw [log_note, log]
      exact List.prefix_rfl
  | endAtLag now hlag draining ended log capacity =>
      rw [log_note, log]
      exact List.prefix_rfl
  | endAtLast now hall draining ended log capacity =>
      rw [log_note, log]
      exact List.prefix_rfl

theorem Next.capacity_eq (hnext : Next w w') : w'.bus.capacity = w.bus.capacity := by
  cases hnext with
  | aside now live ended log capacity => exact capacity
  | event now e hin entry live log capacity => exact capacity
  | lag now hlag forwarding live log capacity => exact capacity
  | endAtLag now hlag draining ended log capacity => exact capacity
  | endAtLast now hall draining ended log capacity => exact capacity

/-- The window never moves back. -/
theorem Next.oldest_le (hnext : Next w w') : w.bus.oldest ≤ w'.bus.oldest := by
  have hsize := hnext.log_grows.length_le
  rw [length_log, length_log] at hsize
  rw [Bus.oldest, Bus.oldest, hnext.capacity_eq]
  omega

/-- What comes next is passed behind what was. An entry that is passed as kept
    was inside the window then, and one that is not was in front of it. -/
theorem Next.passed (hnext : Next w w') : ∃ new, w'.passed = w.passed ++ new ∧
    ((∀ e ∈ new, e.kept = true) ∧ (new = [] ∨ w.bus.oldest ≤ w.passed.length) ∨
      (∀ e ∈ new, e.kept = false) ∧ (w.passed ++ new).length = w.bus.oldest) := by
  cases hnext with
  | aside now live ended log capacity =>
      exact ⟨[], (List.append_nil _).symm, .inl ⟨by simp, .inl rfl⟩⟩
  | event now e hin entry live log capacity =>
      exact ⟨[⟨e, true⟩], rfl, .inl ⟨by simp, .inr hin⟩⟩
  | lag now hlag forwarding live log capacity =>
      exact ⟨_, rfl, .inr ⟨fun _ he => LogEntry.kept_overwritten he, length_skipped w hlag⟩⟩
  | endAtLag now hlag draining ended log capacity =>
      exact ⟨_, rfl, .inr ⟨fun _ he => LogEntry.kept_overwritten he, length_skipped w hlag⟩⟩
  | endAtLast now hall draining ended log capacity =>
      exact ⟨[], (List.append_nil _).symm, .inl ⟨by simp, .inl rfl⟩⟩

/-- What is passed over is out of the window for good. -/
theorem Sound.lost_next (h : w.Sound) (hnext : Next w w') (i : Nat) (e : LogEntry)
    (he : w'.passed[i]? = some e) (hkept : e.kept = false) : i < w'.bus.oldest := by
  have hmono := hnext.oldest_le
  rcases hnext.passed with ⟨new, hpassed, hnew⟩
  rw [hpassed] at he
  by_cases hi : i < w.passed.length
  · rw [List.getElem?_append_left hi] at he
    have hlt := h.lost i e he hkept
    omega
  · have hmem : e ∈ new := by
      rw [List.getElem?_append_right (by omega)] at he
      exact List.mem_of_getElem? he
    rcases hnew with ⟨hall, _⟩ | ⟨_, hlength⟩
    · rw [hall e hmem] at hkept
      exact absurd hkept (by simp)
    · have hlt := (List.getElem?_eq_some_iff.mp he).1
      omega

/-- What comes next is noted as it is. -/
theorem Sound.next (h : w.Sound) (hnext : Next w w') : w'.Sound := by
  have hlost := h.lost_next hnext
  have hwindow : 0 < w'.bus.capacity := by
    rw [hnext.capacity_eq]
    exact h.window
  cases hnext with
  | aside now live ended log capacity =>
      -- A relay that has ended passes nothing any more, whatever others do.
      by_cases hw : w.phase = .ended
      · have hnow := ended hw
        have hlog : now.2.bus.log.toList = w.log := congrArg Array.toList hnow.2
        refine ⟨fun hlive => absurd hnow.1 hlive, h.passed.trans log, h.emitted, hwindow, hlost,
          fun _ => ?_⟩
        have hended := h.ended hw
        rw [← hlog, ← capacity] at hended
        exact hended
      · exact ⟨fun _ => live hw, h.passed.trans log, h.emitted, hwindow, hlost,
          fun hended => absurd hended (live hw).live⟩
  | event now e hin entry live log capacity =>
      refine ⟨fun _ => ?_, ?_, ?_, hwindow, hlost, fun hended => absurd hended live.live⟩
      · rw [note, List.length_append]
        exact live
      · have hpassed := List.prefix_iff_eq_take.mp h.passed
        rw [List.length_map] at hpassed
        have htake : w.log.take (w.passed.length + 1) = w.log.take w.passed.length ++ [e] := by
          rw [List.take_add_one, entry]
          rfl
        have hmap : (w.note now (.event e)).passed.map LogEntry.event
            = w.log.take (w.passed.length + 1) := by
          rw [htake, note, List.map_append, hpassed]
          rfl
        rw [hmap, log_note]
        exact (List.take_prefix _ _).trans log
      · rw [note, LogEntry.keptEvents_append, h.emitted]
        rfl
  | lag now hlag forwarding live log capacity =>
      refine ⟨fun _ => ?_, ?_, ?_, hwindow, hlost, fun hended => absurd hended live.live⟩
      · rw [note, length_skipped w hlag]
        exact live
      · rw [log_note, log, note, h.skipped hlag]
        exact List.take_prefix _ _
      · rw [note, LogEntry.keptEvents_append_overwritten]
        exact h.emitted
  | endAtLag now hlag draining ended log capacity =>
      have hlog : (w.note now (.lagged (w.bus.oldest - w.passed.length))).log = w.log := by
        rw [log_note, log]
        rfl
      refine ⟨fun hlive => absurd ended hlive, ?_, ?_, hwindow, hlost,
        fun _ => .inr ⟨_, if_pos draining, ?_⟩⟩
      · rw [hlog, note, h.skipped hlag]
        exact List.take_prefix _ _
      · rw [note, LogEntry.keptEvents_append_overwritten]
        exact h.emitted
      · rw [hlog, length_log, note, length_skipped w hlag]
        change w.bus.oldest + now.2.bus.capacity = w.bus.log.size
        rw [capacity]
        rw [Bus.oldest] at hlag ⊢
        omega
  | endAtLast now hall draining ended log capacity =>
      have hlog : (w.note now .empty).log = w.log := by
        rw [log_note, log]
        rfl
      refine ⟨fun hlive => absurd ended hlive, ?_, h.emitted, hwindow, hlost,
        fun _ => .inl ⟨if_pos draining, ?_⟩⟩
      · rw [hlog]
        exact h.passed
      · rw [hlog]
        have hlength : w.log.length ≤ (w.passed.map LogEntry.event).length := by
          rw [List.length_map, length_log]
          exact hall
        exact h.passed.eq_of_length_le hlength

/-- However a run goes, the notes agree with the log. -/
theorem sound_after (h : w.Sound) (actions : List RelayAction) : (w.after actions).Sound := by
  induction actions generalizing w with
  | nil => exact h
  | cons a rest ih => exact ih (h.next (next_see h a))

/-- One moment of a run is before another. -/
structure Onward (m w : Relay) : Prop where
  passed : m.passed <+: w.passed
  log : m.log <+: w.log
  oldest : m.bus.oldest ≤ w.bus.oldest
  /-- What was out of the window is not handed on any more. -/
  stale : ∀ i e, m.passed.length ≤ i → i < m.bus.oldest → w.passed[i]? = some e → e.kept = false

theorem Onward.refl (w : Relay) : w.Onward w where
  passed := List.prefix_rfl
  log := List.prefix_rfl
  oldest := Nat.le_refl _
  stale := by
    intro i e hi _ he
    rw [List.getElem?_eq_none hi] at he
    exact absurd he (by simp only [reduceCtorEq, not_false_eq_true])

/-- What has been passed by a listener at one moment stays behind it at the next. -/
theorem Onward.next {m : Relay} (h : m.Onward w) (hnext : Next w w') : m.Onward w' := by
  rcases hnext.passed with ⟨new, hpassed, hnew⟩
  refine ⟨?_, h.log.trans hnext.log_grows, Nat.le_trans h.oldest hnext.oldest_le, ?_⟩
  · rw [hpassed]
    exact h.passed.trans (List.prefix_append _ _)
  · intro i e hi hlt he
    rw [hpassed] at he
    by_cases hold : i < w.passed.length
    · rw [List.getElem?_append_left hold] at he
      exact h.stale i e hi hlt he
    · have hmem : e ∈ new := by
        rw [List.getElem?_append_right (by omega)] at he
        exact List.mem_of_getElem? he
      rcases hnew with ⟨_, rfl | hin⟩ | ⟨hstale, _⟩
      · exact absurd hmem List.not_mem_nil
      · -- An entry in front of the old window is in front of the new one.
        have holdest := h.oldest
        omega
      · exact hstale e hmem

/-- What has been passed by a listener stays behind it for good. -/
theorem onward_after {m : Relay} (hs : w.Sound) (h : m.Onward w) (actions : List RelayAction) :
    m.Onward (w.after actions) := by
  induction actions generalizing w with
  | nil => exact h
  | cons a rest ih =>
      have hnext := next_see hs a
      exact ih (hs.next hnext) (h.next hnext)

theorem mem_stretch {entries : List LogEntry} {a b : Nat} {e : LogEntry}
    (h : e ∈ (entries.drop a).take (b - a)) : ∃ i, a ≤ i ∧ i < b ∧ entries[i]? = some e := by
  rcases List.mem_iff_getElem?.mp h with ⟨i, hi⟩
  rw [List.getElem?_take] at hi
  split at hi
  next hlt =>
    rw [List.getElem?_drop] at hi
    exact ⟨a + i, by omega, by omega, hi⟩
  next => exact absurd hi (by simp only [reduceCtorEq, not_false_eq_true])

theorem split_stretches {a b c : Nat} (hab : a ≤ b) (hbc : b ≤ c) (entries : List LogEntry) :
    entries = entries.take a ++ ((entries.drop a).take (b - a) ++
      ((entries.drop b).take (c - b) ++ entries.drop c)) := by
  have hb : entries.drop b = (entries.drop b).take (c - b) ++ entries.drop c := by
    conv_lhs => rw [← List.take_append_drop (c - b) (entries.drop b)]
    rw [List.drop_drop, Nat.add_sub_of_le hbc]
  have ha : entries.drop a = (entries.drop a).take (b - a) ++ entries.drop b := by
    conv_lhs => rw [← List.take_append_drop (b - a) (entries.drop a)]
    rw [List.drop_drop, Nat.add_sub_of_le hab]
  rw [← hb, ← ha, List.take_append_drop]

/-- If everything was passed and nothing overwritten of what was retained,
    then all of that was handed on behind what had been before. -/
theorem Onward.emitted {m : Relay} (h : m.Onward w) (hm : m.Sound) (hw : w.Sound)
    (hall : w.passed.map LogEntry.event = w.log)
    (hkept : ∀ i e, max m.passed.length m.bus.oldest ≤ i → i < m.log.length →
      w.passed[i]? = some e → e.kept = true) :
    ∃ later, w.emitted = m.emitted ++ m.retained ++ later := by
  have hpassed : m.passed.length ≤ m.log.length := by
    have hle := hm.passed.length_le
    rwa [List.length_map] at hle
  have holdest : m.bus.oldest ≤ m.log.length := by
    rw [length_log]
    exact Nat.sub_le _ _
  have hsplit := split_stretches (Nat.le_max_left m.passed.length m.bus.oldest)
    (Nat.max_le.mpr ⟨hpassed, holdest⟩) w.passed
  have hbefore : w.passed.take m.passed.length = m.passed :=
    (List.prefix_iff_eq_take.mp h.passed).symm
  have hgone : LogEntry.keptEvents ((w.passed.drop m.passed.length).take
      (max m.passed.length m.bus.oldest - m.passed.length)) = [] := by
    refine LogEntry.keptEvents_of_stale fun e he => ?_
    rcases mem_stretch he with ⟨i, hi, hlt, hentry⟩
    exact h.stale i e hi (by omega) hentry
  have hthere : LogEntry.keptEvents ((w.passed.drop (max m.passed.length m.bus.oldest)).take
      (m.log.length - max m.passed.length m.bus.oldest)) = m.retained := by
    have hlog : m.log = w.log.take m.log.length := List.prefix_iff_eq_take.mp h.log
    rw [LogEntry.keptEvents_of_kept, List.map_take, List.map_drop, hall, retained]
    · conv_rhs => rw [hlog, List.drop_take]
    · intro e he
      rcases mem_stretch he with ⟨i, hi, hlt, hentry⟩
      exact hkept i e hi hlt hentry
  have hkeptEvents := congrArg LogEntry.keptEvents hsplit
  rw [LogEntry.keptEvents_append, LogEntry.keptEvents_append, LogEntry.keptEvents_append, hbefore,
    hgone, hthere, List.nil_append] at hkeptEvents
  exact ⟨_, by rw [hw.emitted, hm.emitted, hkeptEvents, List.append_assoc]⟩

/-- What is handed on is what was published, in order and each entry once, but
    for entries that were overwritten before the listener came to them; and
    it is handed on before the lanes are closed. When the listener has ended,
    everything is accounted for if and only if it found nothing more; else it
    ended at a lag, with a full window ahead of it. And if it found nothing
    more, all that was retained at any moment and not overwritten afterwards
    was handed on behind what had been before. -/
theorem relayed_iff (capacity : Nat) (subscribers : List Subscriber)
    (before rest : List RelayAction) :
    let m := (start capacity subscribers).after before
    let w := m.after rest
    (w.passed.map LogEntry.event <+: w.log ∧
      w.emitted = LogEntry.keptEvents w.passed ∧
      (∀ i e, w.passed[i]? = some e → e.kept = false → i < w.bus.oldest) ∧
      (w.phase ≠ .ended → ∀ l ∈ w.now.1.lanes, l.state = .attended)) ∧
    (w.phase = .ended →
      (w.passed.map LogEntry.event = w.log ↔ w.finale = some .empty) ∧
      (w.finale ≠ some .empty → (∃ n, w.finale = some (.lagged n)) ∧
        w.passed.length + w.bus.capacity = w.log.length) ∧
      (w.finale = some .empty →
        (∀ i e, max m.passed.length m.bus.oldest ≤ i → i < m.log.length →
          w.passed[i]? = some e → e.kept = true) →
        ∃ later, w.emitted = m.emitted ++ m.retained ++ later)) := by
  intro m w
  have hm : m.Sound := sound_after (sound_start capacity subscribers) before
  have hw : w.Sound := sound_after hm rest
  have honward : m.Onward w := onward_after hm (.refl m) rest
  refine ⟨⟨hw.passed, hw.emitted, hw.lost, fun hlive => (hw.live hlive).lanes⟩, fun hended => ?_⟩
  rcases hw.ended hended with ⟨hfinale, hall⟩ | ⟨n, hfinale, hahead⟩
  · exact ⟨⟨fun _ => hfinale, fun _ => hall⟩, fun hne => absurd hfinale hne,
      fun _ hkept => honward.emitted hm hw hall hkept⟩
  · have hne : w.finale ≠ some .empty := by
      rw [hfinale]
      simp
    refine ⟨⟨fun hall => ?_, fun heq => absurd heq hne⟩, fun _ => ⟨⟨n, hfinale⟩, hahead⟩,
      fun heq => absurd heq hne⟩
    -- A full window ahead is an entry at least that was not passed.
    have hlength := congrArg List.length hall
    rw [List.length_map] at hlength
    have hwindow := hw.window
    omega

/-- Two events on a bus for one. The listener is told to end before it has
    received any, and the one that is retained stays behind. -/
theorem retained_left_behind :
    ¬ ∀ (capacity : Nat) (subscribers : List Subscriber) (before rest : List RelayAction),
      let m := (start capacity subscribers).after before
      let w := m.after (.act .stop :: rest)
      w.phase = .ended → ∃ later, w.emitted = m.emitted ++ m.retained ++ later := by
  intro h
  rcases h 1 [] [.act (.publish { kind := .runtimeStopped }),
    .act (.publish { kind := .shutdownRequested })] [.act .receive] (by decide) with ⟨later, heq⟩
  have hlength := congrArg List.length heq
  rw [List.length_append] at hlength
  -- Nothing was handed on, and one entry was retained.
  exact absurd hlength (Nat.ne_of_lt (Nat.lt_of_lt_of_le (by decide) (Nat.le_add_right _ _)))

end Relay

end SoftPlc
