import SoftPlc.Bus

/-!
# The journal

Making events and publishing them. Every event of a program run draws its
number from one counter, also one that is never recorded or delivered; a
journal is that counter together with the bus on which most events end up.

## Main definitions

* `Journal`: The counter and the bus.
* `Journal.make`: A numbered event that is not published.
* `Journal.publish`: A numbered event on the bus.
-/

namespace SoftPlc

/-- The counter events draw their numbers from, and the bus. -/
structure Journal where
  /-- The number of the next event. -/
  next : Nat := 0
  bus : Bus
  deriving DecidableEq, Repr, Inhabited

namespace Journal

/-- Makes an event of a notice. -/
def make (j : Journal) (n : Notice) : Event × Journal :=
  (⟨j.next, n⟩, { j with next := j.next + 1 })

/-- Makes an event of a notice and publishes it. -/
def publish (j : Journal) (n : Notice) : Journal :=
  { next := j.next + 1, bus := j.bus.publish ⟨j.next, n⟩ }

/-- Publishes several notices in order. -/
def publishAll (j : Journal) (ns : List Notice) : Journal :=
  ns.foldl publish j

/-- Gives a receiver of the bus what it can get now. -/
def drain (j : Journal) (receiver : Nat) : List Received × Journal :=
  let (got, bus) := j.bus.drain receiver
  (got, { j with bus })

end Journal

end SoftPlc
