import SoftPlc.Event

/-!
# The event bus

Where events are published and any number of receivers read them, each at its
own pace. The bus is a log that only grows, seen through a window: the last
`capacity` entries are retained, and a receiver is a position in the log. A
receiver that falls behind the window is told once how many entries it
missed, and continues with the oldest one retained.

The capacity is a power of two, at least one. An entry published while nobody
listens is not recorded at all, and a new receiver begins at the end of the
log, so it sees what is published from then on and nothing older. Closing the
bus ends publication; what is retained can still be read.

Receivers are told apart by their position in the list of receivers and keep
it for good. A receiver that has left is kept as `none`.

## Main definitions

* `Bus`: The log, its window and the receivers.
* `Bus.publish`: One more entry.
* `Bus.subscribe`: One more receiver.
* `Bus.receive`: What a receiver gets next.
* `Bus.drain`: Everything a receiver can get now.

## Theorems

* `receiveAt_of_lt_oldest`: A lag is counted exactly and ends at the window.
* `receiveAt_of_lt_size`: A receiver inside the window misses nothing.
-/

namespace SoftPlc

/-- The log of events and the positions of those who read it. -/
structure Bus where
  /-- How many entries are retained. -/
  capacity : Nat
  /-- Every entry recorded so far. -/
  log : Array Event := #[]
  /-- The next entry of each receiver; `none` for one that has left. -/
  receivers : List (Option Nat) := []
  /-- Publication has ended. -/
  closed : Bool := false
  deriving DecidableEq, Repr, Inhabited

/-- What a receiver gets. -/
inductive Received where
  | event (e : Event)
  /-- So many entries were overwritten before they were read. -/
  | lagged (count : Nat)
  /-- Nothing new, but there may be later. -/
  | empty
  /-- Nothing new, and there will not be. -/
  | closed
  deriving DecidableEq, Repr, Inhabited

namespace Bus

/-- The greatest capacity a bus can have. -/
def maxCapacity : Nat := Nat.pow 2 63 - 1

/-- The least power of two that is at least `n`, found by doubling from
    `candidate` at most `steps` times. -/
def powerFrom (n : Nat) : Nat → Nat → Nat
  | 0, candidate => candidate
  | steps + 1, candidate => if n ≤ candidate then candidate else powerFrom n steps (2 * candidate)

/-- The window that a wish for `n` entries gets. -/
def window (n : Nat) : Nat :=
  powerFrom n (Nat.log2 n + 1) 1

/-- A bus for at least `n` entries; `none` if that is more than there can be. -/
def ofCapacity? (n : Nat) : Option Bus :=
  if n ≤ maxCapacity then some { capacity := window n } else none

/-- A bus for at least `n` entries, or for as many as there can be. -/
def ofCapacity (n : Nat) : Bus :=
  { capacity := window (min n maxCapacity) }

/-- How many receivers have not left. -/
def receiverCount (b : Bus) : Nat :=
  b.receivers.countP Option.isSome

/-- Records an event, if anyone listens and the bus is open. -/
def publish (b : Bus) (e : Event) : Bus :=
  if b.closed || b.receiverCount = 0 then b else { b with log := b.log.push e }

/-- Adds a receiver of what is published from now on, and gives its index. -/
def subscribe (b : Bus) : Nat × Bus :=
  (b.receivers.length, { b with receivers := b.receivers ++ [some b.log.size] })

/-- Lets a receiver leave. -/
def unsubscribe (b : Bus) (receiver : Nat) : Bus :=
  { b with receivers := b.receivers.set receiver none }

/-- Ends publication. -/
def close (b : Bus) : Bus :=
  { b with closed := true }

/-- The position of the oldest entry retained. -/
def oldest (b : Bus) : Nat :=
  b.log.size - b.capacity

/-- What a receiver at a position gets, and where it stands afterwards. -/
def receiveAt (b : Bus) (position : Nat) : Received × Nat :=
  if position < b.oldest then (.lagged (b.oldest - position), b.oldest)
  else match b.log[position]? with
    | some e => (.event e, position + 1)
    | none => (if b.closed then .closed else .empty, position)

/-- What a receiver gets next. One that has left gets nothing. -/
def receive (b : Bus) (receiver : Nat) : Received × Bus :=
  match b.receivers[receiver]? with
  | some (some position) =>
    let (got, next) := b.receiveAt position
    (got, { b with receivers := b.receivers.set receiver (some next) })
  | _ => (.closed, b)

/-- Everything a receiver at a position can get now, given how many attempts
    are worth making. -/
def drainFrom (b : Bus) : Nat → Nat → List Received → List Received × Nat
  | 0, position, got => (got.reverse, position)
  | attempts + 1, position, got =>
    match b.receiveAt position with
    | (.event e, next) => drainFrom b attempts next (.event e :: got)
    | (.lagged n, next) => drainFrom b attempts next (.lagged n :: got)
    | (_, next) => (got.reverse, next)

/-- Everything a receiver can get now. Besides the entries from its position
    on there can be one lag to report and one attempt that brings nothing. -/
def drain (b : Bus) (receiver : Nat) : List Received × Bus :=
  match b.receivers[receiver]? with
  | some (some position) =>
    let (got, next) := b.drainFrom (b.log.size - position + 2) position []
    (got, { b with receivers := b.receivers.set receiver (some next) })
  | _ => ([], b)

/-- A receiver behind the window is told how far behind it is, and then stands
    at the oldest entry. -/
theorem receiveAt_of_lt_oldest (b : Bus) (position : Nat) (h : position < b.oldest) :
    b.receiveAt position = (.lagged (b.oldest - position), b.oldest) := by
  rw [receiveAt, if_pos h]

/-- A receiver inside the window misses nothing: it gets the entry it stands
    at. -/
theorem receiveAt_of_lt_size (b : Bus) (position : Nat) (h : ¬ position < b.oldest)
    (hs : position < b.log.size) :
    b.receiveAt position = (.event b.log[position], position + 1) := by
  rw [receiveAt, if_neg h, Array.getElem?_eq_getElem hs]

end Bus

end SoftPlc
