import SoftPlc.Proofs.Supervisor.Completion

/-!
# What a turn publishes

The supervisor writes to the journal and never reads it. So an operation
publishes the same notices in the same order on whatever journal, and does
everything else as it would on any other. `Publishes` says this of operations
as functions, because it compares what they do on different journals.

Three kinds of notices are about the life of an engine. After what a reply
itself announces, a turn publishes one of these if it launches an engine, and
none otherwise; and it launches one only for a call that wants the engine
started. This is `Tells`, and like `Advance` it is a law of turns.

## Main definitions

* `Notice.isLife`: The notices about the life of an engine.
* `Supervisor.Publishes`: What an operation publishes, on whatever journal.
* `Supervisor.Tells`: What a turn publishes.

## Theorems

* `tells_law`: Whatever a turn is made of, it tells what it launches.
* `tells_enter`, `tells_carryOn`, `tells_resume`: What turns tell.
* `complete_on`: What a completion announces is published.
-/

namespace SoftPlc

/-- The notice is about the life of an engine. -/
def Notice.isLife (n : Notice) : Bool :=
  n.kind == .runtimeStarted || n.kind == .runtimeStopped || n.kind == .runtimeLost

namespace Supervisor

variable {s : Supervisor} {env : Surroundings} {b : Bool}

/-- The operation publishes these notices, on whatever journal. -/
def Publishes (f : Supervisor → Result) (s : Supervisor) (ns : List Notice) : Prop :=
  ∀ j, f (s.on j) = ((f s).1.on (j.publishAll ns), (f s).2)

/-- It is enough to know what the operation leaves, up to the journal. -/
theorem Publishes.intro {f : Supervisor → Result} {t : Supervisor} {turn : Turn}
    {ns : List Notice} (hon : ∀ j, f (s.on j) = (t.on (j.publishAll ns), turn)) :
    Publishes f s ns ∧ f s = (t.on (s.journal.publishAll ns), turn) := by
  have hs : f s = (t.on (s.journal.publishAll ns), turn) := hon s.journal
  refine ⟨fun j => ?_, hs⟩
  rw [hon, hs]
  rfl

/-- What leaves the journal alone publishes nothing. -/
theorem Publishes.quiet {f : Supervisor → Result} {t : Supervisor} {turn : Turn}
    (hon : ∀ j, f (s.on j) = (t.on j, turn)) :
    Publishes f s [] ∧ f s = (t.on s.journal, turn) :=
  Publishes.intro hon

/-- The notices tell of the launch of an engine, or no engine is launched. -/
def Reports (before after : List EngineProcess) (ns : List Notice) : Prop :=
  (after = before ∧ ns.filter Notice.isLife = []) ∨
    ∃ pid, after = before ++ [EngineProcess.mk pid false] ∧
      ns.filter Notice.isLife = [{ kind := .runtimeStarted, pid }]

/-- What a turn publishes, whatever the journal. It launches an engine, or
    waits to do so, only if it may. -/
def Tells (may : Bool) (f : Supervisor → Result) (s : Supervisor) : Prop :=
  ∃ ns, Publishes f s ns ∧ Reports s.engines (f s).1.engines ns ∧
    (may = false → (f s).1.engines = s.engines) ∧
    ∀ call, (f s).2.call? = some call → call.starts = true → may = true

/-- So it is for what it tells. -/
theorem Tells.intro {f : Supervisor → Result} {u : Supervisor} {turn : Turn} {ns : List Notice}
    (hon : ∀ j, f (s.on j) = (u.on (j.publishAll ns), turn))
    (hreports : Reports s.engines u.engines ns) (hsame : b = false → u.engines = s.engines)
    (hcall : ∀ call, turn.call? = some call → call.starts = true → b = true) : Tells b f s := by
  rcases Publishes.intro hon with ⟨hpublishes, hs⟩
  refine ⟨ns, hpublishes, ?_, ?_, ?_⟩
  · rw [hs]
    exact hreports
  · rw [hs]
    exact hsame
  · rw [hs]
    exact hcall

/-- An operation tells what the one tells that it comes to, if the journal does
    not decide. -/
theorem Tells.of_eq {f g : Supervisor → Result} (h : Tells b g s)
    (heq : ∀ j, f (s.on j) = g (s.on j)) : Tells b f s := by
  rcases h with ⟨ns, hpublishes, hreports, hsame, hcall⟩
  exact .intro (fun j => (heq j).trans (hpublishes j)) hreports hsame hcall

/-- What is published first comes first. -/
theorem Tells.publish {f : Supervisor → Result} {n : Notice} (hn : n.isLife = false)
    (h : Tells b f (s.publish n)) : Tells b (fun s => f (s.publish n)) s := by
  rcases h with ⟨ns, hpublishes, hreports, hsame, hcall⟩
  have hlife : (n :: ns).filter Notice.isLife = ns.filter Notice.isLife :=
    List.filter_cons_of_neg (by rw [hn]; exact Bool.false_ne_true)
  refine ⟨n :: ns, fun j => hpublishes (j.publish n), ?_, hsame, hcall⟩
  rw [Reports, hlife]
  exact hreports

theorem tells_finish (outcome : Outcome) : Tells b (fun s => (s, .finished outcome)) s :=
  ⟨[], fun _ => rfl, .inl ⟨rfl, rfl⟩, fun _ => rfl,
    fun _ h => absurd h (by simp only [Turn.call?, reduceCtorEq, not_false_eq_true])⟩

/-- Before it waits an operation may change the state, but neither engines nor
    journal. -/
theorem tells_wait {call : Call} (g : Supervisor → Supervisor)
    (hon : ∀ j, g (s.on j) = (g s).on j) (hsame : (g s).engines = s.engines)
    (h : call.starts = true → b = true) : Tells b (fun s => (g s, .waits call)) s := by
  have hnothing : ∀ j, (g (s.on j), Turn.waits call)
      = ((g s).on (j.publishAll []), Turn.waits call) := fun j => congrArg (·, _) (hon j)
  exact .intro hnothing (.inl ⟨hsame, rfl⟩) (fun _ => hsame)
    fun _ hc hs => h (Option.some.inj hc ▸ hs)

theorem tells_pause {call : Call} (h : call.starts = true → b = true) :
    Tells b (fun s => (s, .waits call)) s :=
  tells_wait id (fun _ => rfl) rfl h

theorem tells_launch : Tells true (Supervisor.launch env) s := by
  rcases hl : env.launchEngine with reason | pid
  · have hon : ∀ j, Supervisor.launch env (s.on j) = (s.on j,
        .finished (.started (.error (.spawn s.config.engine.program reason)))) := by
      intro j
      rw [launch, hl]
      rfl
    exact (tells_finish _).of_eq hon
  · have hon : ∀ j, Supervisor.launch env (s.on j) = ({ s with
        belief := .running ⟨s.engines.length, env.now⟩
        engines := s.engines ++ [EngineProcess.mk pid false] }.on
          (j.publishAll [{ kind := .runtimeStarted, pid }]),
          .finished (.started (.ok .running))) := by
      intro j
      rw [launch, hl]
      rfl
    exact .intro hon (.inr ⟨pid, rfl, rfl⟩) (fun h => absurd h (by decide)) (fun _ _ _ => rfl)

/-- The compiler is launched, or cannot be. -/
def spawnCompiler (env : Surroundings) (source : List UInt8) (s : Supervisor) : Result :=
  match env.launchCompiler source with
  | .error reason =>
    (s, .finished (.acknowledged (.error (.spawn s.config.compiler.program reason))))
  | .ok pid =>
    let s := s.publish { kind := .compileStarted, reason := some (Text.shownPath source), pid }
    ({ s with jobs := s.jobs ++ [Job.start source], current := some s.jobs.length },
      .finished (.acknowledged (.ok ())))

/-- A compilation that is admitted announces first that it supersedes another. -/
theorem compileNow_eq (source : List UInt8) (s : Supervisor) :
    s.compileNow env source =
      if s.isCompiling && s.config.admission == .reject then
        (s, .finished (.acknowledged (.error .compileInProgress)))
      else if s.isCompiling then
        (s.publish { kind := .compileSuperseded }).spawnCompiler env source
      else s.spawnCompiler env source := by
  unfold compileNow
  split
  next => rfl
  next =>
    by_cases hc : s.isCompiling = true
    · rw [if_pos hc, if_pos hc]
      rfl
    · rw [if_neg hc, if_neg hc]
      rfl

theorem tells_spawnCompiler (source : List UInt8) : Tells b (spawnCompiler env source) s := by
  rcases hl : env.launchCompiler source with reason | pid
  · have hon : ∀ j, spawnCompiler env source (s.on j) = (s.on j,
        .finished (.acknowledged (.error (.spawn s.config.compiler.program reason)))) := by
      intro j
      rw [spawnCompiler, hl]
      rfl
    exact (tells_finish _).of_eq hon
  · have hon : ∀ j, spawnCompiler env source (s.on j) = ({ s with
        jobs := s.jobs ++ [Job.start source], current := some s.jobs.length }.on (j.publishAll
          [{ kind := .compileStarted, reason := some (Text.shownPath source), pid }]),
        .finished (.acknowledged (.ok ()))) := by
      intro j
      rw [spawnCompiler, hl]
      rfl
    exact .intro hon (.inl ⟨rfl, rfl⟩) (fun _ => rfl)
      fun _ h => absurd h (by simp only [Turn.call?, reduceCtorEq, not_false_eq_true])

theorem tells_compileNow (source : List UInt8)
    (h : ¬ (s.isCompiling && s.config.admission == .reject) = true) :
    Tells b (compileNow env source) s := by
  by_cases hc : s.isCompiling = true
  · have hspawn : Tells b (fun s =>
        (s.publish { kind := .compileSuperseded }).spawnCompiler env source) s :=
      .publish rfl (tells_spawnCompiler source)
    refine hspawn.of_eq fun j => ?_
    rw [compileNow_eq, isCompiling_on, config_on, if_neg h, if_pos hc]
  · have hspawn : Tells b (spawnCompiler env source) s := tells_spawnCompiler source
    refine hspawn.of_eq fun j => ?_
    rw [compileNow_eq, isCompiling_on, config_on, if_neg h, if_neg hc]

/-- Whatever a turn is made of, it tells of the launch of an engine, and of
    nothing else in its life. -/
theorem tells_law (env : Surroundings) (b : Bool) : TurnLaw env b (Tells b) where
  comesTo := Tells.of_eq
  finishes := fun _ outcome => tells_finish outcome
  pauses := by
    intro s call hcall
    refine tells_pause fun hstarts => ?_
    cases call with
    | probing goal => exact absurd hcall Bool.false_ne_true
    | waiting goal signalled => exact absurd hcall Bool.false_ne_true
    | _ => exact absurd hstarts Bool.false_ne_true
  probes := fun _ _ _ _ _ hstarts => tells_wait _ (fun _ => rfl) rfl hstarts
  joins := fun _ _ _ hstart => tells_pause hstart
  quits := fun _ _ _ => tells_pause fun h => absurd h Bool.false_ne_true
  launches := fun _ _ hmay => hmay ▸ tells_launch
  compiles := fun _ source hadmitted => tells_compileNow source hadmitted
  closes := fun _ _ => tells_wait _ (fun _ => rfl) rfl fun h => absurd h Bool.false_ne_true
  announces := fun _ _ h => .publish rfl h

/-- Only a call to start the engine may launch it at once. -/
theorem tells_enter (request : Request) : Tells (request == .start) (enter env request) s :=
  (tells_law env _).enter request fun h => h

/-- Only a call that waits to have it started may launch it afterwards. -/
theorem tells_carryOn {call : Call} (hex : call.exchange?.isSome = true)
    (reply : Except ControlError String) :
    Tells call.starts (fun s => s.carryOn env call reply) s :=
  (tells_law env _).carryOn hex (fun h => h) reply

/-- A call that goes on with a settled status tells of a launch only if it was
    made to start the engine. -/
theorem tells_resume (goal : Goal) :
    Tells goal.isStart (fun s => s.resume env goal s.lastKnown) s :=
  (tells_law env _).resume goal fun h => h

theorem announces_on (call : Call) (c : Completion) (j : Journal) :
    (s.on j).announces call c = s.announces call c := rfl

/-- What a completion announces is published, on whatever journal. -/
theorem complete_on (call : Call) (c : Completion) (j : Journal) :
    (s.on j).complete call c = (s.complete call c).on (j.publishAll (s.announces call c)) := by
  cases hcall : call.isProbe with
  | true =>
      rw [complete_probe hcall, complete_probe hcall, announces_on]
      rfl
  | false =>
      rw [complete_other hcall, complete_other hcall, announces_on]
      rfl

end Supervisor

end SoftPlc
