import SoftPlc.Bench.Crew
import SoftPlc.Bench.Engine
import SoftPlc.Bench.Programs
import SoftPlc.Listener
import SoftPlc.Supervisor.Step

/-!
# The supervisor in a played world

A supervisor together with everything around it: the engine and the network to
it, the host that launches programs, the listener with its lanes and the
subscribers at work, and a clock. All of it is a value. What runs when is
decided elsewhere; here is what there is, and how a call goes from one of its
turns to the next.

An attempt to connect without a route fails without waiting. A call whose
exchanges all end that way never waits for the network, so its turns follow
each other in one piece.

## Main definitions

* `Flight`: An exchange that is under way.
* `PendingRead`: A read of compiler output that waits.
* `World`: The supervisor and what is around it.
* `World.dial`: An exchange is opened.
* `World.follow`: A call's exchanges, as long as they end at once.
-/

namespace SoftPlc.Bench

/-- An exchange that is under way. -/
structure Flight where
  /-- The call that waits for it, unless it has been given up. -/
  owner : Option Nat
  text : String
  limit : Nat
  /-- When the client has its reply. -/
  due : Nat
  reply : Except ControlError String
  /-- The reaction that the engine holds back. -/
  held : Option Reaction

/-- A read of a compiler's output that was begun and waits for a line. -/
structure PendingRead where
  id : Nat
  job : Nat
  /-- When its time is up. -/
  deadline : Nat
  deriving DecidableEq, Repr, Inhabited

/-- The supervisor and what is around it. -/
structure World where
  supervisor : Supervisor
  listener : Listener
  crew : Crew
  /-- A receiver on the bus that was there from the start. -/
  observer : Nat
  network : Network
  host : Host := .ordinary
  enginePlayed : Bool := true
  compilerPlayed : Bool := true
  playbook : Playbook := {}
  /-- The time, in nanoseconds. -/
  clock : Nat := 0
  flights : List Flight := []
  reads : List PendingRead := []
  /-- What the engine has heard since it was last asked, newest first. -/
  heard : List String := []
  /-- The number of the next call. -/
  nextId : Nat := 0
  /-- What calls have come to. -/
  outcomes : List (Nat × Outcome) := []
  /-- What exchanges outside any operation have come to. -/
  replies : List (Nat × Except ControlError String) := []
  /-- What reads of compiler output have come to. -/
  lines : List (Nat × Option LogLine) := []
  /-- The calls that wait for the process to be told to end. -/
  untilSignal : List Nat := []

namespace World

/-- A new world with these settings, subscribers and network. -/
def start (config : Config) (subscribers : List (Subscriber × Post)) (network : Network) : World :=
  let s := Supervisor.initial config
  let (receiver, bus) := s.journal.bus.subscribe
  let (observer, bus) := bus.subscribe
  { supervisor := { s with journal := { s.journal with bus } }
    listener := { receiver, lanes := subscribers.map fun p => { subscriber := p.1 } }
    crew := .ofPosts (subscribers.map (·.2))
    observer, network }

/-- How the engine would be launched. -/
def engineLaunch (w : World) : Launchable :=
  ⟨w.supervisor.config.engine, w.enginePlayed, w.supervisor.config.workingDirectory⟩

/-- How the compiler would be launched. -/
def compilerLaunch (w : World) : Launchable :=
  ⟨w.supervisor.config.compiler, w.compilerPlayed, w.supervisor.config.workingDirectory⟩

/-- What the world answers to the supervisor now. -/
def surroundings (w : World) : Surroundings where
  now := w.clock
  launchEngine := (w.host.launch home w.engineLaunch []).map fun _ =>
    some w.supervisor.engines.length
  launchCompiler source := (w.host.launch home w.compilerLaunch [source]).map fun _ =>
    some w.supervisor.jobs.length

/-- What the client makes of an exchange that begins now, and when it is done
    with it. -/
def foresee (w : World) (limit : Nat) (e : Exchange) :
    Except ControlError String × Nat :=
  let client := w.supervisor.config.client
  (client.conclude limit e, w.clock + (patience client limit e).nanos)

/-- Opens an exchange. It may be over at once; otherwise it is under way. -/
def dial (w : World) (owner : Nat) (text : String) (limit : Nat) :
    World × Option (Except ControlError String) :=
  match w.network.dial with
  | .completed =>
    let (reaction, playbook) := w.playbook.serve text
    let size := (Client.request text).length
    let played :=
      if reaction.held then { reaction with chunks := [], ending := .hang } else reaction
    let (reply, due) := w.foresee limit (played.exchange size)
    let held := if reaction.held then some { reaction with held := false } else none
    ({ w with
        playbook
        heard := reaction.account text :: w.heard
        flights := w.flights ++ [⟨some owner, text, limit, due, reply, held⟩] }, none)
  | attempt =>
    let (reply, due) := w.foresee limit (unconnected attempt)
    if w.network.answersAtOnce then (w, some reply)
    else ({ w with flights := w.flights ++ [⟨some owner, text, limit, due, reply, none⟩] }, none)

/-- Goes on with a call after one of its turns: keeps its outcome, or opens
    the exchange it waits for, and another while they end at once. -/
def follow : Nat → Nat → Option Outcome → World → World
  | _, id, some outcome, w => { w with outcomes := (id, outcome) :: w.outcomes }
  | 0, _, none, w => w
  | turns + 1, id, none, w =>
    match (w.supervisor.call? id).bind Call.exchange? with
    | none => w
    | some command =>
      match w.dial id command.wire command.replyLimit with
      | (w, none) => w
      | (w, some reply) =>
        match w.supervisor.reply w.surroundings id reply with
        | none => w
        | some (supervisor, outcome) => follow turns id outcome { w with supervisor }

/-- More turns than any call has exchanges: a plan has four services with two
    each. -/
def turnBound : Nat := 16

end World

end SoftPlc.Bench
