import SoftPlc.Bench.World
import SoftPlc.Compile.Waiting

/-!
# The course of the world

What runs when. Time stands still while anything can run. `World.calm` lets
everything run that can, in a fixed order: the listener forwards all that is
on the bus, then the woken workers run, and only when both are at rest does a
call go on, the signalled ones first and then those whose reply has come. When
nothing can run any more and something is being waited for, the clock is set
to the next moment at which a time limit runs out. So a scenario has one
course.

A call in the foreground runs on its own as long as it need not wait; nothing
else runs in between. Opening the gates of subscribers comes before the call
that is made then, so the workers it wakes keep their turn: they run before a
listener that only the call itself has given something to forward.

## Main definitions

* `World.runOne`: The next thing that runs.
* `World.calm`: Everything runs that can.
* `World.call`, `World.spawnCall`: A call in the foreground or background.
* `World.beginRead`: A read of compiler output in the background.
* `World.waitFor`: Time passes until a call is over.
* `World.sleep`: Time passes.
-/

namespace SoftPlc.Bench

namespace World

/-- Carries the listener's step into the world. -/
def setListener (w : World) (now : Listener.WithJournal) : World :=
  { w with
    listener := now.1
    supervisor := { w.supervisor with journal := now.2 }
    crew := w.crew.noticeArrivals w.listener.lanes now.1.lanes }

/-- The listener's next step, if it has one. -/
def listen (w : World) : Option World :=
  if w.supervisor.cancelled && w.listener.phase == .forwarding then
    some { w with listener := w.listener.stop }
  else (Listener.receive (w.listener, w.supervisor.journal)).map w.setListener

/-- The listener takes every step it can, for at most so many steps. -/
def forwardAll : Nat → World → World
  | 0, w => w
  | steps + 1, w =>
    match w.listen with
    | some w => forwardAll steps w
    | none => w

/-- The woken workers run, if there are any. -/
def work (w : World) : Option World :=
  if w.crew.woken.isEmpty then none
  else
    let (lanes, crew, journal) := Crew.run w.listener.lanes w.crew w.supervisor.journal
    some { w with
      listener := { w.listener with lanes }
      crew
      supervisor := { w.supervisor with journal } }

/-- The first signalled call goes on, if there is one. -/
def wakeOne (w : World) : Option World := do
  let (id, _) ← w.supervisor.calls.find? fun c => c.2.isSignalled
  let (supervisor, outcome) ← w.supervisor.wake w.surroundings id
  some (follow turnBound id outcome { w with supervisor })

/-- The flight whose reply comes first, with its place; the oldest of several. -/
def firstDue (w : World) : Option (Flight × Nat) :=
  (w.flights.zipIdx.filter fun (f, _) => f.owner.isSome).foldl
    (fun best (f, i) =>
      match best with
      | some (g, k) => if f.due < g.due then some (f, i) else some (g, k)
      | none => some (f, i)) none

/-- The reply that came first reaches its caller, if one has come. The engine
    keeps a connection on which it owes a reaction. -/
def deliverOne (w : World) : Option World := do
  let (flight, i) ← w.firstDue
  let id ← flight.owner
  if w.clock < flight.due then none
  else
    -- The client has given up; the engine does not know that.
    let flights := match flight.held with
      | some _ => w.flights.set i { flight with owner := none }
      | none => w.flights.eraseIdx i
    let w := { w with flights }
    match w.supervisor.reply w.surroundings id flight.reply with
    | some (supervisor, outcome) => some (follow turnBound id outcome { w with supervisor })
    | none => some { w with replies := (id, flight.reply) :: w.replies }

/-- Changes the stream of a job. -/
def setStream (w : World) (job : Nat) (stream : LogStream) : World :=
  { w with supervisor := w.supervisor.updateJob job fun j journal => ({ j with stream }, journal) }

/-- The first call that waits for the background work to end is over, if it
    has ended. -/
def closeOne (w : World) : Option World := do
  if w.listener.phase != .ended || !w.crew.isDone w.listener.lanes then none
  else
    let (id, _) ← w.supervisor.calls.find? fun c => c.2 == .closing
    let (supervisor, outcome) ← w.supervisor.close id
    some (follow turnBound id outcome { w with supervisor })

/-- Keeps what a read has come to. -/
def finishRead (w : World) (r : PendingRead) (line : Option LogLine) : World :=
  { w with reads := w.reads.filter (·.id != r.id), lines := (r.id, line) :: w.lines }

/-- A read looks for a line, and goes on waiting if there is none and may
    still be one. -/
def attemptRead (w : World) (r : PendingRead) : World :=
  match w.supervisor.jobs[r.job]? with
  | none => w.finishRead r none
  | some job =>
    let (stream, phase) := job.stream.attempt r.id
    let w := w.setStream r.job stream
    match phase with
    | .done line => w.finishRead r line
    | _ => w

/-- The first signalled read looks again, if there is one. -/
def readOne (w : World) : Option World := do
  let r ← w.reads.find? fun r =>
    w.supervisor.jobs[r.job]?.any fun job => job.stream.isSignalled r.id
  some (w.attemptRead r)

/-- The time of the first read whose time is up has run out. -/
def expireOne (w : World) : Option World := do
  let r ← w.reads.find? fun r => r.deadline ≤ w.clock
  let job ← w.supervisor.jobs[r.job]?
  let (line, stream) := job.stream.expire r.id
  some ((w.setStream r.job stream).finishRead r line)

/-- The next thing that runs while time stands still. -/
def runOne (w : World) : Option World :=
  w.listen <|> w.work <|> w.wakeOne <|> w.deliverOne <|> w.readOne <|> w.expireOne <|> w.closeOne

/-- Everything runs that can, for at most so many steps. -/
def calm : Nat → World → World
  | 0, w => w
  | steps + 1, w =>
    match w.runOne with
    | some w => calm steps w
    | none => w

/-- How many steps anything is given to come to rest. -/
def endurance : Nat := 10000000

/-- Everything runs that can. -/
def rest (w : World) : World :=
  calm endurance w

/-- The next moment at which something that is waited for comes or runs out. -/
def nextMoment (w : World) : Option Nat :=
  (w.flights.filterMap (fun f => f.owner.map fun _ => f.due) ++ w.reads.map (·.deadline)).min?

/-- Time passes until a condition holds or nothing is left to wait for. -/
def passUntil (done : World → Bool) : Nat → World → World
  | 0, w => w
  | steps + 1, w =>
    let w := w.rest
    if done w then w
    else match w.nextMoment with
      | some moment => passUntil done steps { w with clock := max w.clock moment }
      | none => w

/-- A call has come to something. -/
def isOver (w : World) (id : Nat) : Bool :=
  (w.outcomes.lookup id).isSome || (w.replies.lookup id).isSome || (w.lines.lookup id).isSome

/-- Time passes until a call is over, unless it is over already. -/
def waitFor (w : World) (id : Nat) : World :=
  if w.isOver id then w else passUntil (·.isOver id) endurance w

/-- Time passes up to a given moment. -/
def passTo (target : Nat) : Nat → World → World
  | 0, w => { w with clock := max w.clock target }
  | steps + 1, w =>
    let w := w.rest
    match w.nextMoment with
    | some moment =>
      if moment ≤ target then passTo target steps { w with clock := max w.clock moment }
      else rest { w with clock := max w.clock target }
    | none => rest { w with clock := max w.clock target }

/-- Time passes. -/
def sleep (w : World) (d : Duration) : World :=
  passTo (w.clock + d.nanos) endurance w

/-- The gates of all subscribers are opened. -/
def openGates (w : World) : World :=
  { w with crew := w.crew.openGates w.listener.lanes }

/-- A number for a new call. -/
def fresh (w : World) : Nat × World :=
  (w.nextId, { w with nextId := w.nextId + 1 })

/-- A call is made and runs until it has to wait. -/
def beginCall (w : World) (id : Nat) (request : Request) : World :=
  let (supervisor, outcome) := w.supervisor.begin w.surroundings id request
  follow turnBound id outcome { w with supervisor }

/-- The workers that are due to run do so. -/
def workAll (w : World) : World :=
  w.work.getD w

/-- A call is made in the foreground and waited for. Workers that were woken
    before it, while the listener had nothing to forward, run before the
    listener does. -/
def call (w : World) (request : Request) : Option Outcome × World :=
  let (id, w) := w.fresh
  let begun := w.beginCall id request
  let begun := if w.listen.isNone then begun.workAll else begun
  let w := begun.waitFor id
  (w.outcomes.lookup id, w)

/-- A call is made in the background. What is on the bus is forwarded before
    it begins, and workers that were due to run do so before it; those that
    were only woken by the forwarding run after it. -/
def spawnCall (w : World) (id : Nat) (request : Request) : World :=
  let due := w.crew.woken
  let w := w.forwardAll endurance
  let later := w.crew.woken.drop due.length
  let w := { w with crew := { w.crew with woken := due } }.workAll
  let w := { w with crew := { w.crew with woken := later } }
  (w.beginCall id request).workAll

/-- An exchange outside any operation is made and waited for. -/
def exchange (w : World) (text : String) (limit : Nat) :
    Option (Except ControlError String) × World :=
  let (id, w) := w.fresh
  match w.dial id text limit with
  | (w, some reply) => (some reply, w)
  | (w, none) =>
    let w := w.waitFor id
    (w.replies.lookup id, w)

/-- A read of the current job's output is made in the background. -/
def beginRead (w : World) (id : Nat) (timeout : Duration) : World :=
  match w.supervisor.current with
  | none => w
  | some job =>
    let r : PendingRead := ⟨id, job, w.clock + timeout.nanos⟩
    { w with reads := w.reads ++ [r] }.attemptRead r

/-- A read that waits is given up. -/
def abandonRead (w : World) (r : PendingRead) : World :=
  match w.supervisor.jobs[r.job]? with
  | none => w
  | some job =>
    { w with reads := w.reads.filter (·.id != r.id) }.setStream r.job (job.stream.leave r.id)

/-- A call is given up. -/
def abandon (w : World) (id : Nat) : World :=
  let flights := w.flights.map fun f => if f.owner == some id then { f with owner := none } else f
  let w := { w with
    flights := flights.filter fun f => f.owner.isSome || f.held.isSome
    untilSignal := w.untilSignal.filter (· != id) }
  let w := (w.reads.filter (·.id == id)).foldl abandonRead w
  match w.supervisor.abandon id with
  | some supervisor => { w with supervisor }
  | none => w

/-- The engine goes on with the oldest request of a given text that it holds
    back; `none` if there is none. -/
def releaseHeld (w : World) (text : String) (instead : Option Reaction) : Option World := do
  let (flight, i) ← w.flights.zipIdx.find? fun (f, _) => f.held.isSome && f.text == text
  let reaction := instead.getD (flight.held.getD {})
  match flight.owner with
  | none => some { w with flights := w.flights.eraseIdx i }
  | some _ =>
    let size := (Client.request text).length
    let (reply, due) := w.foresee flight.limit (reaction.exchange size)
    some { w with flights := w.flights.set i { flight with due, reply, held := none } }

/-- The process is told to end: the gates are opened, and when everything has
    run that can, the calls that wait for the signal shut down. -/
def signal (w : World) : World :=
  let ids := w.untilSignal
  ids.foldl (fun w id => w.beginCall id .shutdown) { w.openGates.rest with untilSignal := [] }

/-- The reader of a job gets input. -/
def feed (w : World) (job : Nat) (inputs : List StreamInput) : World :=
  { w with
    supervisor := w.supervisor.updateJob job fun j journal =>
      let (stream, journal) := inputs.foldl LogStream.consume (j.stream, journal)
      ({ j with stream }, journal) }

end World

end SoftPlc.Bench
