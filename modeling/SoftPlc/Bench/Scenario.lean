import SoftPlc.Bench.Course

/-!
# Scenarios

The things that can be done to a supervisor in its played world, one after the
other, and what is recorded of each: the answer, the events on the bus, the
status, what the engine heard, which processes were started, and, for the
steps that let them run, what the subscribers have handled.

A call may be made in the foreground, and is then over before the next step,
or begun under a name and joined later. Writing compiler output and closing it
let nothing else run; letting a process exit does.

## Main definitions

* `Step`: Something done to the supervisor or its world.
* `Scenario.step`: What it answers.
* `Scenario.run`: The records of several steps.
-/

namespace SoftPlc.Bench

/-- A question that is answered without any operation. -/
inductive Look where
  | lastKnown
  | isRunning
  | pollLogText
  | compileReport
  | compileJob
  /-- A line of the latest job, waiting at most so many milliseconds. -/
  | readLine (timeout : Nat)
  | setProject (project : Project)
  | project
  /-- An exchange with the engine outside any operation. -/
  | exchange (text : String) (limit : Nat)
  deriving Repr, Inhabited

/-- What can be begun. -/
inductive Task where
  | request (r : Request)
  /-- Wait for the process to be told to end, then shut down. -/
  | untilSignal
  | look (l : Look)
  deriving Repr, Inhabited

/-- Something done to the supervisor or its world. -/
inductive Step where
  | call (r : Request)
  | look (l : Look)
  | setPlaybook (p : Playbook)
  | setPort (p : Port)
  /-- Let so many milliseconds pass. -/
  | sleep (ms : Nat)
  /-- An engine process exits, the last one unless given. -/
  | engineExit (child : Option Nat) (code : Option Int)
  /-- A compiler writes, the last one unless given. -/
  | compilerWrite (job : Option Nat) (bytes : List UInt8)
  | compilerClose (job : Option Nat)
  | compilerExit (job : Option Nat) (code : Option Int)
  | jobReport (job : Option Nat)
  | settle
  | releaseLane (lane permits : Nat)
  | signal
  | begin (name : String) (task : Task)
  | join (name : String)
  | abort (name : String)
  /-- The engine goes on with a request it holds back. -/
  | release (text : String) (instead : Option Reaction)
  deriving Repr, Inhabited

/-- What a step answers. -/
inductive Answer where
  | nothing
  | flag (b : Bool)
  | status (s : RuntimeStatus)
  | text (s : String)
  | outcome (o : Outcome)
  | report (r : Option Report)
  /-- The source of the latest job, and whether it is over. -/
  | job (j : Option (String × Bool))
  | line (l : Option LogLine)
  | project (p : Project)
  | reply (r : Except ControlError String)
  | jobReport (output : String) (r : Option Report)
  | done
  | noJob
  | noChild
  | finished
  | waiting
  deriving Repr, Inhabited

/-- A process that was started. -/
structure Child where
  isEngine : Bool
  arguments : List (List UInt8)
  /-- Where it works, if it was told to. -/
  place : Option Place
  deriving Repr, Inhabited

/-- What is recorded of a step. -/
structure Record where
  answer : Answer
  received : List Received
  status : RuntimeStatus
  heard : List String
  children : List Child
  /-- What the subscribers have handled, after steps that let them run. -/
  seen : Option (List (List Event))
  deriving Repr, Inhabited

/-- A world and the calls that were begun in it. -/
structure Scenario where
  world : World
  /-- The numbers of the calls that were begun, newest first. -/
  names : List (String × Nat) := []
  /-- The answers of those that were over at once. -/
  answers : List (Nat × Answer) := []

namespace Scenario

/-- The exit code of a process: only its last eight bits are passed on. -/
def passedOn (code : Option Int) : Option Int :=
  code.map (· % 256)

/-- Answers a question. -/
def look (w : World) : Look → Answer × World
  | .lastKnown => (.status w.supervisor.lastKnown, w)
  | .isRunning => (.flag (w.supervisor.lastKnown == .running), w)
  | .pollLogText =>
    let (text, supervisor) := w.supervisor.pollLogText
    (.text text, { w with supervisor })
  | .compileReport => (.report w.supervisor.compileReport, w)
  | .compileJob =>
    let job := w.supervisor.currentJob?.map fun j => (Text.shownPath j.source, j.isTerminal)
    (.job job, w)
  | .readLine timeout =>
    match w.supervisor.current, w.supervisor.currentJob? with
    | some i, some job =>
      match job.stream.next? with
      | (some line, stream) =>
        let supervisor := w.supervisor.updateJob i fun j journal => ({ j with stream }, journal)
        (.line (some line), { w with supervisor })
      | (none, _) =>
        if timeout = 0 || job.stream.raised then (.line none, w)
        else (.line none, w.sleep (.ofMillis timeout))
    | _, _ => (.noJob, w)
  | .setProject project => (.done, { w with supervisor := w.supervisor.setProject project })
  | .project => (.project w.supervisor.project, w)
  | .exchange text limit =>
    match w.exchange text limit with
    | (some reply, w) => (.reply reply, w)
    | (none, w) => (.nothing, w)

/-- Applies a change to the world. -/
def map (s : Scenario) (f : World → World) : Scenario :=
  { s with world := f s.world }

/-- The index meant by an optional one: the last of so many, unless given. -/
def chosen (count : Nat) : Option Nat → Option Nat
  | some i => if i < count then some i else none
  | none => if count = 0 then none else some (count - 1)

/-- The compiler process of a job, unless it has exited. -/
def compiler? (w : World) (job : Option Nat) : Option Nat := do
  let i ← chosen w.supervisor.jobs.length job
  let j ← w.supervisor.jobs[i]?
  if j.exited.isSome then none else some i

/-- The gates are opened before the subscribers are waited for. -/
def prepare (w : World) : Request → World
  | .shutdown => w.openGates
  | _ => w

/-- Begins a task under a name, and lets everything run that can. -/
def begin (s : Scenario) (name : String) (task : Task) : Answer × Scenario :=
  let (id, w) := s.world.fresh
  let s := { s with names := (name, id) :: s.names }
  match task with
  | .untilSignal =>
    (.waiting, { s with world := { w with untilSignal := w.untilSignal ++ [id] }.rest })
  | .request r =>
    let w := ((prepare w r).spawnCall id r).rest
    (if w.isOver id then .finished else .waiting, { s with world := w })
  | .look l =>
    match l, w.supervisor.current with
    | .readLine (timeout + 1), some _ =>
      let w := (w.beginRead id (.ofMillis (timeout + 1))).rest
      (if w.isOver id then .finished else .waiting, { s with world := w })
    | l, _ =>
      let (answer, w) := look w l
      (.finished, { s with world := w.rest, answers := (id, answer) :: s.answers })

/-- Waits for a call that was begun. -/
def join (s : Scenario) (name : String) : Answer × Scenario :=
  match s.names.lookup name with
  | none => (.nothing, s)
  | some id =>
    match s.answers.lookup id with
    | some answer => (answer, s)
    | none =>
      let w := s.world.waitFor id
      let answer := match w.outcomes.lookup id, w.lines.lookup id with
        | some outcome, _ => .outcome outcome
        | none, some line => .line line
        | none, none => .nothing
      (answer, { s with world := w })

/-- Does one step and gives the answer. -/
def step (s : Scenario) : Step → Answer × Scenario
  | .call r =>
    let (outcome, w) := (prepare s.world r).call r
    (outcome.elim .nothing .outcome, { s with world := w })
  | .look l =>
    let (answer, w) := look s.world l
    (answer, { s with world := w })
  | .setPlaybook p => (.nothing, s.map fun w => { w with playbook := p })
  | .setPort p => (.nothing, s.map fun w => { w with network := { w.network with port := p } })
  | .sleep ms => (.nothing, s.map fun w => w.sleep (.ofMillis ms))
  | .engineExit child code =>
    match chosen s.world.supervisor.engines.length child with
    | none => (.noChild, s)
    | some i =>
      -- The exit is only noticed once everything else has run.
      let w := s.world.rest
      match w.supervisor.engineExit i (passedOn code) with
      | none => (.noChild, s)
      | some supervisor => (.nothing, { s with world := { w with supervisor }.rest })
  | .compilerWrite job bytes =>
    match compiler? s.world job with
    | none => (.noChild, s)
    | some i => (.nothing, s.map fun w => w.feed i (bytes.map .byte))
  | .compilerClose job =>
    match compiler? s.world job with
    | none => (.noChild, s)
    | some i => (.nothing, s.map fun w => w.feed i [.ended])
  | .compilerExit job code =>
    match compiler? s.world job with
    | none => (.noChild, s)
    | some i =>
      let w := (s.world.feed i [.ended]).rest
      match w.supervisor.compilerExit i (passedOn code) with
      | none => (.noChild, s)
      | some supervisor => (.nothing, { s with world := { w with supervisor }.rest })
  | .jobReport job =>
    match chosen s.world.supervisor.jobs.length job with
    | none => (.noChild, s)
    | some i =>
      match s.world.supervisor.jobs[i]? with
      | none => (.noChild, s)
      | some j =>
        let (output, j) := j.pollOutput
        let supervisor := s.world.supervisor.updateJob i fun _ journal => (j, journal)
        (.jobReport output j.report, { s with world := { s.world with supervisor } })
  | .settle => (.nothing, s.map World.rest)
  | .releaseLane lane permits =>
    (.nothing, s.map fun w =>
      { w with crew := w.crew.permit w.listener.lanes lane permits }.rest)
  | .signal => (.nothing, s.map fun w => w.signal.rest)
  | .begin name task => begin s name task
  | .join name => join s name
  | .abort name =>
    match s.names.lookup name with
    | none => (.nothing, s)
    | some id => (.nothing, s.map fun w => (w.abandon id).rest)
  | .release text instead =>
    match s.world.releaseHeld text instead with
    | none => (.flag false, s)
    | some w => (.flag true, { s with world := w.rest })

/-- The step lets the subscribers run and reports what they have handled. -/
def showsSeen : Step → Bool
  | .settle => true
  | .releaseLane _ _ => true
  | .signal => true
  | .call .shutdown => true
  | _ => false

/-- Where processes work, if they are told to. -/
def placeOf (w : World) : Option Place :=
  match w.supervisor.config.workingDirectory with
  | none => none
  | some directory =>
    match w.host.enter home (some (Text.shownPath directory)) with
    | .ok place => some place
    | .error _ => none

/-- The processes started since there were so many engines and jobs, engines
    first. -/
def startedSince (w : World) (engines jobs : Nat) : List Child :=
  let place := placeOf w
  let s := w.supervisor
  let engine : Child := ⟨true, s.config.engine.arguments, place⟩
  List.replicate (s.engines.length - engines) engine ++
    (s.jobs.drop jobs).map fun j => ⟨false, s.config.compiler.arguments ++ [j.source], place⟩

/-- Does one step and records it. -/
def record (s : Scenario) (what : Step) : Record × Scenario :=
  let engines := s.world.supervisor.engines.length
  let jobs := s.world.supervisor.jobs.length
  let (answer, s) := step s what
  let w := s.world
  let (received, journal) := w.supervisor.journal.drain w.observer
  let (seen, crew) := if showsSeen what && !w.crew.posts.isEmpty then
      let (seen, crew) := w.crew.report
      (some seen, crew)
    else (none, w.crew)
  let record : Record :=
    { answer, received, seen
      status := w.supervisor.lastKnown
      heard := w.heard.reverse
      children := startedSince w engines jobs }
  (record, { s with world := { w with
    supervisor := { w.supervisor with journal }, crew, heard := [] } })

/-- Does several steps in order. -/
def run (s : Scenario) (steps : List Step) : List Record :=
  (steps.foldl (fun (records, s) what =>
    let (r, s) := record s what
    (r :: records, s)) ([], s)).1.reverse

end Scenario

end SoftPlc.Bench
