import SoftPlc.Proofs.Compile.Reading
import SoftPlc.Proofs.Supervisor.Completion

/-!
# What a step can be

`Supervisor.step` as a relation. An action can happen in one way only, if it
can happen at all, and the conditions on which it can are part of the
relation. So what holds of all steps is shown for the nine constructors of
`Steps`, and the functions that `step` is made of are opened nowhere else.

A call that gets its reply, or is given up, completes before anything else
happens. A reader that takes input or writes changes the stream of its job and
publishes at most one notice.

## Main definitions

* `Supervisor.streamed`: The stream of a job has changed.
* `Supervisor.Steps`: What a step can be.

## Theorems

* `step_eq_some_iff`: The relation is the function.
-/

namespace SoftPlc

namespace Supervisor

/-- The stream of a job has changed and has published a notice, or none. -/
def streamed (s : Supervisor) (i : Nat) (job : Job) (r : LogStream × Option Notice) :
    Supervisor :=
  { s with
    jobs := s.jobs.set i { job with stream := r.1 }
    journal := s.journal.publishAll r.2.toList }

/-- What a step can be. -/
inductive Steps (env : Surroundings) (s : Supervisor) :
    Action → Supervisor × Option Outcome → Prop where
  | begins (id : Nat) (request : Request) (hnone : s.call? id = none) :
      Steps env s (.begin id request) (endTurn id (s.enter env request))
  | replies (id : Nat) (reply : Except ControlError String) (call : Call)
      (hcall : s.call? id = some call) (hex : call.exchange?.isSome = true) :
      Steps env s (.reply id reply)
        (endTurn id (((s.without id).complete call (.replied reply)).carryOn env call reply))
  | wakes (id : Nat) (goal : Goal) (hcall : s.call? id = some (.waiting goal true)) :
      Steps env s (.wake id)
        (endTurn id ((s.without id).resume env goal (s.without id).lastKnown))
  | abandons (id : Nat) (call : Call) (hcall : s.call? id = some call) :
      Steps env s (.abandon id) ((s.without id).complete call .dropped, none)
  | closes (id : Nat) (hcall : s.call? id = some .closing) :
      Steps env s (.close id) (s.without id, some .shutDown)
  | takes (i : Nat) (input : StreamInput) (job : Job) (hjob : s.jobs[i]? = some job)
      (hawaits : job.stream.awaitsInput = true) :
      Steps env s (.output i input) (s.streamed i job (job.stream.take input), none)
  | writes (i : Nat) (job : Job) (hjob : s.jobs[i]? = some job)
      (hbusy : ¬ (job.stream.awaitsInput || job.stream.isStopped) = true) :
      Steps env s (.write i) (s.streamed i job job.stream.act, none)
  | compilerExits (i : Nat) (code : Option Int) (job : Job) (hjob : s.jobs[i]? = some job)
      (hfirst : ¬ job.exited.isSome = true) :
      Steps env s (.compilerExit i code)
        ({ s with jobs := s.jobs.set i (job.exit code) }.publish
          { kind := .compilerExited, exitCode := code }, none)
  /-- Nobody is told once the background work has been told to end. -/
  | engineExits (i : Nat) (code : Option Int) (engine : EngineProcess) (ns : List Notice)
      (hengine : s.engines[i]? = some engine) (hfirst : ¬ engine.exited = true)
      (hns : ns = if s.cancelled then []
        else [{ kind := .runtimeExited, pid := engine.pid, exitCode := code }]) :
      Steps env s (.engineExit i code)
        ({ s with
          engines := s.engines.set i { engine with exited := true }
          journal := s.journal.publishAll ns }, none)

variable {s : Supervisor} {env : Surroundings} {action : Action}
  {r : Supervisor × Option Outcome}

theorem updateJob_stream {i : Nat} {job : Job} (hjob : s.jobs[i]? = some job)
    (step : LogStream → LogStream × Option Notice) :
    (s.updateJob i fun job j =>
      let (stream, j) := LogStream.publishing j (step job.stream)
      ({ job with stream }, j)) = s.streamed i job (step job.stream) := by
  rw [updateJob, hjob]
  dsimp only
  rw [LogStream.publishing_eq]
  rfl

theorem output_eq {i : Nat} {input : StreamInput} {job : Job} (hjob : s.jobs[i]? = some job)
    (hawaits : job.stream.awaitsInput = true) :
    s.output i input = some (s.streamed i job (job.stream.take input)) := by
  rw [← updateJob_stream hjob fun stream => stream.take input, output, hjob]
  exact if_pos hawaits

theorem write_eq {i : Nat} {job : Job} (hjob : s.jobs[i]? = some job)
    (hbusy : ¬ (job.stream.awaitsInput || job.stream.isStopped) = true) :
    s.write i = some (s.streamed i job job.stream.act) := by
  rw [← updateJob_stream hjob LogStream.act, write, hjob]
  exact if_neg hbusy

theorem engineExit_eq {i : Nat} {code : Option Int} {engine : EngineProcess}
    (hengine : s.engines[i]? = some engine) (hfirst : ¬ engine.exited = true) :
    s.engineExit i code = some { s with
      engines := s.engines.set i { engine with exited := true }
      journal := s.journal.publishAll (if s.cancelled then []
        else [{ kind := .runtimeExited, pid := engine.pid, exitCode := code }]) } := by
  rw [engineExit, hengine]
  dsimp only
  rw [if_neg hfirst]
  by_cases hc : s.cancelled = true
  · rw [if_pos hc, if_pos hc]
    rfl
  · rw [if_neg hc, if_neg hc]
    rfl

theorem steps_of_step (h : s.step env action = some r) : Steps env s action r := by
  have hno : ∀ {α : Type} {a : α}, none ≠ some a := (Option.some_ne_none _).symm
  -- Where the guard of the function fails nothing happens at all, and where it
  -- holds it is the guard of the constructor.
  cases action with
  | begin id request =>
      rw [step] at h
      split at h
      next => exact absurd h hno
      next hnone =>
        rw [← Option.some.inj h]
        exact .begins id request (Option.not_isSome_iff_eq_none.mp hnone)
  | reply id reply =>
      rw [step] at h
      cases hcall : s.call? id with
      | none =>
          rw [Supervisor.reply, hcall] at h
          exact absurd h hno
      | some call =>
          by_cases hex : call.exchange?.isSome = true
          · rw [reply_eq hcall hex] at h
            rw [← Option.some.inj h]
            exact .replies id reply call hcall hex
          · rw [Supervisor.reply, hcall] at h
            dsimp only at h
            rw [if_neg hex] at h
            exact absurd h hno
  | wake id =>
      rw [step, wake] at h
      split at h
      next goal hcall =>
        rw [← Option.some.inj h]
        exact .wakes id goal hcall
      next => exact absurd h hno
  | abandon id =>
      rcases Option.map_eq_some_iff.mp h with ⟨t, ht, rfl⟩
      cases hcall : s.call? id with
      | none =>
          rw [abandon, hcall] at ht
          exact absurd ht hno
      | some call =>
          rw [abandon_eq hcall] at ht
          rw [← Option.some.inj ht]
          exact .abandons id call hcall
  | close id =>
      rw [step, close] at h
      split at h
      next hcall =>
        rw [← Option.some.inj h]
        exact .closes id hcall
      next => exact absurd h hno
  | output i input =>
      rcases Option.map_eq_some_iff.mp h with ⟨t, ht, rfl⟩
      cases hjob : s.jobs[i]? with
      | none =>
          rw [output, hjob] at ht
          exact absurd ht hno
      | some job =>
          by_cases hawaits : job.stream.awaitsInput = true
          · rw [output_eq hjob hawaits] at ht
            rw [← Option.some.inj ht]
            exact .takes i input job hjob hawaits
          · rw [output, hjob] at ht
            dsimp only at ht
            rw [if_neg hawaits] at ht
            exact absurd ht hno
  | write i =>
      rcases Option.map_eq_some_iff.mp h with ⟨t, ht, rfl⟩
      cases hjob : s.jobs[i]? with
      | none =>
          rw [write, hjob] at ht
          exact absurd ht hno
      | some job =>
          by_cases hbusy : (job.stream.awaitsInput || job.stream.isStopped) = true
          · rw [write, hjob] at ht
            dsimp only at ht
            rw [if_pos hbusy] at ht
            exact absurd ht hno
          · rw [write_eq hjob hbusy] at ht
            rw [← Option.some.inj ht]
            exact .writes i job hjob hbusy
  | compilerExit i code =>
      rcases Option.map_eq_some_iff.mp h with ⟨t, ht, rfl⟩
      unfold compilerExit at ht
      split at ht
      next job hjob =>
        split at ht
        next => exact absurd ht hno
        next hfirst =>
          rw [← Option.some.inj ht]
          exact .compilerExits i code job hjob hfirst
      next => exact absurd ht hno
  | engineExit i code =>
      rcases Option.map_eq_some_iff.mp h with ⟨t, ht, rfl⟩
      cases hengine : s.engines[i]? with
      | none =>
          rw [engineExit, hengine] at ht
          exact absurd ht hno
      | some engine =>
          by_cases hfirst : engine.exited = true
          · rw [engineExit, hengine] at ht
            dsimp only at ht
            rw [if_pos hfirst] at ht
            exact absurd ht hno
          · rw [engineExit_eq hengine hfirst] at ht
            rw [← Option.some.inj ht]
            exact .engineExits i code engine _ hengine hfirst rfl

/-- What the relation allows is what the function does. -/
theorem Steps.step_eq (h : Steps env s action r) : s.step env action = some r := by
  cases h with
  | begins id request hnone =>
      rw [step, hnone]
      rfl
  | replies id reply call hcall hex => exact reply_eq hcall hex reply
  | wakes id goal hcall =>
      rw [step, wake, hcall]
  | abandons id call hcall => exact congrArg (Option.map (·, none)) (abandon_eq hcall)
  | closes id hcall =>
      rw [step, close, hcall]
  | takes i input job hjob hawaits =>
      exact congrArg (Option.map (·, none)) (output_eq hjob hawaits)
  | writes i job hjob hbusy => exact congrArg (Option.map (·, none)) (write_eq hjob hbusy)
  | compilerExits i code job hjob hfirst =>
      rw [step, compilerExit, hjob]
      exact congrArg (Option.map (·, none)) (if_neg hfirst)
  | engineExits i code engine ns hengine hfirst hns =>
      rw [hns]
      exact congrArg (Option.map (·, none)) (engineExit_eq hengine hfirst)

/-- A step is what the relation says, and nothing else is a step. -/
theorem step_eq_some_iff : s.step env action = some r ↔ Steps env s action r :=
  ⟨steps_of_step, Steps.step_eq⟩

end Supervisor

end SoftPlc
