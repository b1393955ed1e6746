import SoftPlc.Journal

/-!
# Trying out the bus

A bus with any number of handles and receivers, and the things that can be
done to them one after the other. All handles lead to the same bus, so a
handle is only a number here.

## Main definitions

* `BusStep`: Something done to the bus.
* `BusBench.step`: What it answers.
-/

namespace SoftPlc.Bench

/-- Something done to the bus. -/
inductive BusStep where
  /-- Publish a notice so many times, as a new event each time. -/
  | publish (notice : Notice) (count : Nat)
  | subscribe
  /-- Make another handle. -/
  | clone
  /-- Drop every handle. -/
  | dropHandles
  | unsubscribe (receiver : Nat)
  | receiverCount
  | receive (receiver : Nat)
  | drain (receiver : Nat)
  deriving Repr, Inhabited

/-- What a step answers. -/
inductive BusAnswer where
  | nothing
  | count (n : Nat)
  | received (r : Received)
  | drained (rs : List Received)
  deriving Repr, Inhabited

/-- The journal with the bus, and how many handles were made. -/
structure BusBench where
  journal : Journal
  handles : Nat := 1
  deriving Repr, Inhabited

namespace BusBench

/-- Does one step and gives the answer. -/
def step (b : BusBench) : BusStep → BusAnswer × BusBench
  | .publish notice count =>
    (.nothing, { b with journal := b.journal.publishAll (List.replicate count notice) })
  | .subscribe =>
    let (receiver, bus) := b.journal.bus.subscribe
    (.count receiver, { b with journal := { b.journal with bus } })
  | .clone => (.count b.handles, { b with handles := b.handles + 1 })
  | .dropHandles =>
    (.nothing, { b with journal := { b.journal with bus := b.journal.bus.close } })
  | .unsubscribe receiver =>
    let bus := b.journal.bus.unsubscribe receiver
    (.nothing, { b with journal := { b.journal with bus } })
  | .receiverCount => (.count b.journal.bus.receiverCount, b)
  | .receive receiver =>
    let (got, bus) := b.journal.bus.receive receiver
    (.received got, { b with journal := { b.journal with bus } })
  | .drain receiver =>
    let (got, journal) := b.journal.drain receiver
    (.drained got, { b with journal })

/-- Does several steps in order. -/
def run (b : BusBench) (steps : List BusStep) : List BusAnswer :=
  (steps.foldl (fun (answers, b) s =>
    let (answer, b) := step b s
    (answer :: answers, b)) ([], b)).1.reverse

end BusBench

end SoftPlc.Bench
