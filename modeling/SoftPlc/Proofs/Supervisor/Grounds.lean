import SoftPlc.Proofs.Supervisor.Completion

/-!
# What a turn relies on

A turn relies on a running engine if it ends in a command for it, or if it
answers a start with the news that the engine runs already. It then has a
ground. The engine was launched so recently that the status counts without a
probe; or the turn goes on with a status that it was given, and what is to be
thought of that status is for the caller of the turn to say.

A turn that sends a probe has the opposite ground: the engine is known to run,
and not launched recently.

This is a law of turns. A turn that is new has been given no status, so it
relies on nothing but a recent launch, and only what follows a wait for a
probe can rely on more.

## Main definitions

* `Call.isCommand`: The calls that wait for the reply to a command.
* `Turn.relies`: The turn is of no use unless the engine runs.
* `Supervisor.Backed`: A turn has a ground for what it does.

## Theorems

* `backed_law`: Whatever a turn is made of, it has a ground.
* `backed_enter`, `backed_carryOn`, `backed_resume`: The grounds of the turns.
-/

namespace SoftPlc

/-- The call waits for the reply to a command that is no probe. -/
def Call.isCommand : Call → Bool
  | quitting _ => true
  | readingTime => true
  | readingLogs => true
  | toggling _ => true
  | _ => false

/-- The turn ends in a command for the engine, or in the answer that it runs. -/
def Turn.relies : Turn → Bool
  | waits call => call.isCommand
  | finished (.started (.ok .running)) => true
  | finished _ => false

/-- Whoever waits for a reply waits for that to a probe or to a command. -/
theorem Call.isCommand_of_exchange {call : Call} (hex : call.exchange?.isSome = true)
    (hprobe : call.isProbe = false) : call.isCommand = true := by
  cases call with
  | asking => exact absurd hprobe.symm Bool.false_ne_true
  | probing goal => exact absurd hprobe.symm Bool.false_ne_true
  | waiting goal signalled => exact absurd hex Bool.false_ne_true
  | closing => exact absurd hex Bool.false_ne_true
  | _ => rfl

theorem Call.isCommand_of_isProbe {call : Call} (hprobe : call.isProbe = true) :
    call.isCommand = false := by
  cases call with
  | asking => rfl
  | probing goal => rfl
  | _ => exact absurd hprobe Bool.false_ne_true

theorem Turn.relies_finished {outcome : Outcome} (h : outcome ≠ .started (.ok .running)) :
    (finished outcome).relies = false := by
  unfold relies
  split
  next heq => cases heq
  next heq => exact absurd (Turn.finished.inj heq) h
  next => rfl

namespace Supervisor

variable {s t : Supervisor} {env : Surroundings}

/-- What is published, and who waits, does not make a launch any older. -/
theorem graced_congr (hconfig : t.config = s.config) (hbelief : t.belief = s.belief) (now : Nat) :
    t.graced now = s.graced now := by
  rw [graced, graced, hbelief]
  congr 1
  funext launch
  rw [inGrace, inGrace, hconfig]

/-- A turn has a ground for what it does. A probe is sent to an engine that is
    known to run, but not believed to without one. A turn that relies on the
    engine, and has not just launched it, knows that it runs; it leaves the
    belief as it is, and has a recent launch or a trusted status to go by. -/
structure Backed (env : Surroundings) (trusted : Prop) (s : Supervisor) (r : Result) : Prop where
  probes : ∀ call, r.2 = .waits call → call.isProbe = true →
    s.lastKnown = .running ∧ r.1.graced env.now = false
  relies : r.2.relies = true → r.1.engines.length = s.engines.length →
    s.lastKnown = .running ∧ r.1.belief = s.belief ∧ (r.1.graced env.now = true ∨ trusted)

variable {trusted : Prop}

theorem backed_finish (t : Supervisor) {outcome : Outcome}
    (h : outcome ≠ .started (.ok .running)) : Backed env trusted s (t, .finished outcome) where
  probes := fun _ hturn => Turn.noConfusion hturn
  relies := by
    intro hrelies
    rw [Turn.relies_finished h] at hrelies
    exact absurd hrelies Bool.false_ne_true

/-- Other waits rely on nothing. -/
theorem backed_wait (t : Supervisor) {call : Call} (hprobe : call.isProbe = false)
    (hcommand : call.isCommand = false) : Backed env trusted s (t, .waits call) where
  probes := by
    intro other hturn hother
    rw [← Turn.waits.inj hturn, hprobe] at hother
    exact absurd hother Bool.false_ne_true
  relies := fun hrelies => absurd (hcommand.symm.trans hrelies) Bool.false_ne_true

theorem backed_rely {turn : Turn} (hprobe : ∀ call, turn = .waits call → call.isProbe = false)
    (hk : s.lastKnown = .running) (hground : s.graced env.now = true ∨ trusted) :
    Backed env trusted s (s, turn) where
  probes := by
    intro call hturn hcall
    rw [hprobe call hturn] at hcall
    exact absurd hcall Bool.false_ne_true
  relies := fun _ _ => ⟨hk, rfl, hground⟩

theorem backed_launch : Backed env trusted s (s.launch env) := by
  unfold launch
  rcases env.launchEngine with reason | pid
  · refine backed_finish s fun h => ?_
    exact absurd (Outcome.started.inj h) (by simp only [reduceCtorEq, not_false_eq_true])
  · refine ⟨fun _ hturn => Turn.noConfusion hturn, fun _ hsame => ?_⟩
    -- It relies on an engine that was not there before.
    have hmore : (s.engines ++ [EngineProcess.mk pid false]).length = s.engines.length := hsame
    rw [List.length_append, List.length_singleton] at hmore
    omega

theorem backed_compileNow (source : List UInt8) :
    Backed env trusted s (s.compileNow env source) := by
  unfold compileNow
  split
  next => exact backed_finish s Outcome.noConfusion
  next =>
    dsimp only
    rcases env.launchCompiler source with reason | pid
    · exact backed_finish _ Outcome.noConfusion
    · exact backed_finish _ Outcome.noConfusion

/-- Whatever a turn is made of, it has a ground for what it does. -/
theorem backed_law (env : Surroundings) (trusted : Prop) :
    GroundedLaw env true trusted fun f s => Backed env trusted s (f s) where
  comesTo := by
    intro f g s h heq
    have hsame : f s = g s := heq s.journal
    rw [hsame]
    exact h
  finishes := fun s outcome hne => backed_finish s hne
  confirms := fun _ hk hground => backed_rely (fun _ hturn => Turn.noConfusion hturn) hk hground
  pauses := by
    intro s call hcall hk hground
    refine backed_rely (fun other hturn => ?_) hk hground
    rw [← Turn.waits.inj hturn]
    cases call with
    | asking => exact absurd hcall Bool.false_ne_true
    | probing goal => exact absurd hcall Bool.false_ne_true
    | _ => rfl
  -- A probe is sent only when the time of grace is over, and commands nothing.
  probes := by
    intro s call launch hb hk hg hprobe _
    refine ⟨fun _ _ _ => ⟨hk, ?_⟩, fun hrelies => ?_⟩
    · rw [graced, hb] at hg
      exact hg
    · have hno : call.isCommand = true := hrelies
      rw [Call.isCommand_of_isProbe hprobe] at hno
      exact absurd hno Bool.false_ne_true
  joins := fun s _ _ _ => backed_wait s rfl rfl
  quits := by
    intro s after hk hground
    refine backed_rely (fun call hturn => ?_) hk hground
    rw [← Turn.waits.inj hturn]
    rfl
  launches := fun _ _ _ => backed_launch
  compiles := fun _ source _ => backed_compileNow source
  closes := fun s _ => backed_wait { s with cancelled := true } rfl rfl
  announces := fun _ _ h => ⟨h.probes, h.relies⟩

/-- A new turn goes by recent launches only. -/
theorem backed_enter (request : Request) : Backed env False s (s.enter env request) :=
  (backed_law env False).enter request fun _ => rfl

/-- So does a turn after the reply to a command. After the reply to a probe it
    may go by what that says. -/
theorem backed_carryOn (trusted : Prop) {call : Call} (hex : call.exchange?.isSome = true)
    (reply : Except ControlError String)
    (htrusted : call.isProbe = true → s.lastKnown = .running → trusted) :
    Backed env trusted s (s.carryOn env call reply) :=
  (backed_law env trusted).carryOn hex (fun _ => rfl) reply htrusted

/-- A call that goes on with what is known is backed by it, if what is known can
    be trusted. -/
theorem backed_resume (trusted : Prop) (goal : Goal)
    (htrusted : s.lastKnown = .running → trusted) :
    Backed env trusted s (s.resume env goal s.lastKnown) :=
  (backed_law env trusted).resume goal (fun _ => rfl) htrusted

end Supervisor

end SoftPlc
