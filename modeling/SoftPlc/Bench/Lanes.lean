import SoftPlc.Bench.Crew

/-!
# Trying out the lanes

A set of lanes with subscribers whose gates and panics are played, and a bus
of its own with one receiver. Nothing carries the bus back into the lanes.
Workers run only in the steps that say so, and then until all of them sleep.

## Main definitions

* `LaneStep`: Something done to the lanes.
* `LaneBench.step`: What it answers.
-/

namespace SoftPlc.Bench

/-- Something done to the lanes. -/
inductive LaneStep where
  /-- Deliver one event so many times. -/
  | emit (notice : Notice) (count : Nat)
  | settle
  /-- Give a gated subscriber permits, and settle. -/
  | release (lane permits : Nat)
  | killWorkers
  | size
  | shutdown
  deriving Repr, Inhabited

/-- The lanes, those who work on them, and the journal. -/
structure LaneBench where
  lanes : List Lane
  crew : Crew
  journal : Journal
  /-- The receiver on the bus. -/
  observer : Nat
  deriving Inhabited

namespace LaneBench

/-- Lanes for some subscribers, on a bus for so many events. -/
def start (capacity : Nat) (subscribers : List (Subscriber × Post)) : LaneBench :=
  let (observer, bus) := (Bus.ofCapacity capacity).subscribe
  { lanes := subscribers.map fun s => { subscriber := s.1 }
    crew := .ofPosts (subscribers.map (·.2))
    journal := { bus }
    observer }

/-- Delivers an event. -/
def deliver (b : LaneBench) (e : Event) : LaneBench :=
  let (lanes, journal) := emit b.lanes e b.journal
  { b with lanes, journal, crew := b.crew.noticeArrivals b.lanes lanes }

/-- The workers run until all of them sleep. -/
def settle (b : LaneBench) : LaneBench :=
  let (lanes, crew, journal) := Crew.run b.lanes b.crew b.journal
  { b with lanes, crew, journal }

/-- Does one step; the answer, if there is one, is the number of lanes. -/
def step (b : LaneBench) : LaneStep → Option Nat × LaneBench
  | .emit notice count =>
    let (e, journal) := b.journal.make notice
    (none, (List.replicate count e).foldl deliver { b with journal })
  | .settle => (none, b.settle)
  | .release lane permits =>
    (none, { b with crew := b.crew.permit b.lanes lane permits }.settle)
  | .killWorkers =>
    (none, { b with lanes := b.lanes.map Lane.abandon, crew := { b.crew with woken := [] } })
  | .size => (some b.lanes.length, b)
  | .shutdown =>
    let b := { b with crew := b.crew.openGates b.lanes, lanes := b.lanes.map Lane.close }
    (none, b.settle)

/-- What a step answered, what each subscriber handled meanwhile, and what the
    receiver on the bus got. -/
structure Record where
  size : Option Nat
  seen : List (List Event)
  received : List Received
  deriving Repr, Inhabited

/-- Does one step and records it. -/
def record (b : LaneBench) (s : LaneStep) : Record × LaneBench :=
  let (size, b) := b.step s
  let (seen, crew) := b.crew.report
  let (received, journal) := b.journal.drain b.observer
  (⟨size, seen, received⟩, { b with crew, journal })

/-- Does several steps in order. -/
def run (b : LaneBench) (steps : List LaneStep) : List Record :=
  (steps.foldl (fun (records, b) s =>
    let (r, b) := record b s
    (r :: records, b)) ([], b)).1.reverse

end LaneBench

end SoftPlc.Bench
