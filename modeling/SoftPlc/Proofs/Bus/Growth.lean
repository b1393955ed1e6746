import SoftPlc.Listener

/-!
# What delivery does to the bus

Lanes and their workers know the bus only as a place to report to. Whatever
becomes of an event that is handed to them, the log grows by some reports and
nobody's position in it changes. `Bus.Grows` is that much and no more; it does
not say what is reported, because whoever reads the log only has to know that
what was there is still there, and in the same place.

Growing may push entries out of the window. `Grows.oldest_le` is the only way
in which a report does harm to those who read.

## Main definitions

* `Bus.Grows`: More is in the log, and nothing else has changed.
* `Bus.Receives`: What a receiver gets, wherever it stands.

## Theorems

* `grows_publish`: Publishing lets the log grow.
* `grows_emit`, `grows_handle`: So do the lanes and their workers.
* `receive_lagged`, `receive_event`, `receive_empty`: What a receiver gets.
* `receives`: It gets one of these.
-/

namespace SoftPlc

namespace Bus

variable {a b c : Bus}

/-- More is in the log, and nothing else has changed. -/
structure Grows (b b' : Bus) : Prop where
  capacity : b'.capacity = b.capacity
  receivers : b'.receivers = b.receivers
  closed : b'.closed = b.closed
  log : b.log.toList <+: b'.log.toList

theorem Grows.refl (b : Bus) : b.Grows b :=
  ⟨rfl, rfl, rfl, List.prefix_rfl⟩

theorem Grows.trans (h : a.Grows b) (h' : b.Grows c) : a.Grows c :=
  ⟨h'.capacity.trans h.capacity, h'.receivers.trans h.receivers, h'.closed.trans h.closed,
    h.log.trans h'.log⟩

theorem Grows.size_le (h : a.Grows b) : a.log.size ≤ b.log.size := by
  have hle := h.log.length_le
  rwa [Array.length_toList, Array.length_toList] at hle

/-- The window moves on with the log, so what has left it does not come back. -/
theorem Grows.oldest_le (h : a.Grows b) : a.oldest ≤ b.oldest := by
  have hle := h.size_le
  rw [oldest, oldest, h.capacity]
  omega

/-- Publishing adds one event to the log, or none if the bus is closed or nobody
    listens. -/
theorem grows_publish (b : Bus) (e : Event) : b.Grows (b.publish e) := by
  unfold publish
  split
  next => exact .refl b
  next => exact ⟨rfl, rfl, rfl, by rw [Array.toList_push]; exact List.prefix_append _ _⟩

theorem grows_reportDrop (l : Lane) (e : Event) (reason : String) (j : Journal) :
    j.bus.Grows (l.reportDrop e reason j).bus := by
  unfold Lane.reportDrop
  split
  next => exact .refl _
  next => exact grows_publish _ _

theorem grows_deliverHere (l : Lane) (e : Event) (j : Journal) :
    j.bus.Grows (l.deliverHere e j).2.bus := by
  unfold Lane.deliverHere
  split
  next => exact .refl _
  next =>
    split
    next => exact .refl _
    next => exact grows_reportDrop l e "full" j
  next => exact grows_reportDrop l e "closed" j

theorem grows_deliver (l : Lane) (e : Event) (j : Journal) :
    j.bus.Grows (l.deliver e j).2.bus := by
  unfold Lane.deliver
  split
  next => exact grows_deliverHere l e j
  next =>
    -- A marker draws a number and leaves the bus alone.
    dsimp only [Journal.make]
    split
    next => exact grows_deliverHere _ e ⟨j.next + 1, j.bus⟩
    next =>
      split
      next => exact .refl _
      next => exact grows_deliverHere l e ⟨j.next + 1, j.bus⟩

/-- Emitting an event to the lanes publishes reports at most. A listener that
    emits what it has received may therefore be compared with the bus before it
    did. -/
theorem grows_emit (lanes : List Lane) (e : Event) (j : Journal) :
    j.bus.Grows (emit lanes e j).2.bus := by
  induction lanes generalizing j with
  | nil => exact .refl _
  | cons l rest ih =>
      have hfirst : j.bus.Grows
          (if l.accepts e.kind then l.deliver e j else (l, j)).2.bus := by
        split
        next => exact grows_deliver l e j
        next => exact .refl _
      exact hfirst.trans (ih _)

/-- A worker that hands an event to its subscriber publishes a report at most,
    and only if the subscriber panics. -/
theorem grows_handle (l : Lane) (j : Journal) : j.bus.Grows (l.handle j).2.bus := by
  unfold Lane.handle
  split
  next => exact .refl _
  next =>
    dsimp only
    split
    next => exact .refl _
    next => exact grows_publish _ _

theorem le_powerFrom (n steps candidate : Nat) : candidate ≤ powerFrom n steps candidate := by
  induction steps generalizing candidate with
  | zero => exact Nat.le_refl candidate
  | succ steps ih =>
      rw [powerFrom]
      split
      next => exact Nat.le_refl candidate
      next =>
        have hdouble := ih (2 * candidate)
        omega

/-- A bus retains at least one event, whatever capacity it was asked for. -/
theorem window_pos (n : Nat) : 0 < window n :=
  le_powerFrom n (Nat.log2 n + 1) 1

variable {receiver position : Nat}

/-- What a receiver gets depends on its own position only, and receiving moves
    no other receiver. -/
theorem receive_eq (h : b.receivers[receiver]? = some (some position)) :
    b.receive receiver = ((b.receiveAt position).1,
      { b with receivers := b.receivers.set receiver (some (b.receiveAt position).2) }) := by
  rw [receive, h]

/-- A receiver that has fallen behind the window is taken to its start. -/
theorem receive_lagged (h : b.receivers[receiver]? = some (some position))
    (hlag : position < b.oldest) :
    b.receive receiver = (.lagged (b.oldest - position),
      { b with receivers := b.receivers.set receiver (some b.oldest) }) := by
  rw [receive_eq h, receiveAt_of_lt_oldest b position hlag]

/-- Inside the window a receiver gets the event at its position, and goes one
    further. -/
theorem receive_event (h : b.receivers[receiver]? = some (some position))
    (hin : ¬ position < b.oldest) (hsize : position < b.log.size) :
    b.receive receiver = (.event b.log[position],
      { b with receivers := b.receivers.set receiver (some (position + 1)) }) := by
  rw [receive_eq h, receiveAt_of_lt_size b position hin hsize]

/-- A receiver that has come to the end of an open bus gets nothing and stays. -/
theorem receive_empty (h : b.receivers[receiver]? = some (some position))
    (hopen : b.closed = false) (hin : ¬ position < b.oldest) (hsize : b.log.size ≤ position) :
    b.receive receiver = (.empty, b) := by
  have hat : b.receiveAt position = (.empty, position) := by
    rw [receiveAt, if_neg hin, Array.getElem?_eq_none hsize, hopen]
    rfl
  have hset : b.receivers.set receiver (some position) = b.receivers := by
    rcases List.getElem?_eq_some_iff.mp h with ⟨hlt, heq⟩
    rw [← heq]
    exact List.set_getElem_self hlt
  rw [receive_eq h, hat, hset]

/-- What a receiver gets, and where it stands then. One that gets nothing may
    have left. -/
inductive Receives (b : Bus) (receiver : Nat) : Received × Bus → Prop where
  | event (position : Nat) (e : Event)
      (stands : b.receivers[receiver]? = some (some position))
      (entry : b.log.toList[position]? = some e) :
      Receives b receiver
        (.event e, { b with receivers := b.receivers.set receiver (some (position + 1)) })
  | lagged (position : Nat) (stands : b.receivers[receiver]? = some (some position))
      (hlag : position < b.oldest) :
      Receives b receiver (.lagged (b.oldest - position),
        { b with receivers := b.receivers.set receiver (some b.oldest) })
  | nothing (got : Received) (b' : Bus) (hgot : got = .empty ∨ got = .closed)
      (same : b'.receivers.length = b.receivers.length) : Receives b receiver (got, b')

/-- There is nothing else that receiving can come to. Proofs about what a
    receiver does go through these cases, and open `Bus.receive` no more. -/
theorem receives (b : Bus) (receiver : Nat) : b.Receives receiver (b.receive receiver) := by
  unfold receive
  split
  next position hstands =>
    by_cases hlag : position < b.oldest
    · rw [receiveAt_of_lt_oldest b position hlag]
      exact .lagged position hstands hlag
    · by_cases hsize : position < b.log.size
      · rw [receiveAt_of_lt_size b position hlag hsize]
        refine .event position _ hstands ?_
        rw [Array.getElem?_toList, Array.getElem?_eq_getElem hsize]
      · rw [receiveAt, if_neg hlag, Array.getElem?_eq_none (Nat.le_of_not_lt hsize)]
        refine .nothing _ _ ?_ (List.length_set)
        split
        next => exact .inr rfl
        next => exact .inl rfl
  next => exact .nothing .closed b (.inr rfl) rfl

end Bus

end SoftPlc
