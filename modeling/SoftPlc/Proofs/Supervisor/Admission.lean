import SoftPlc.Proofs.Compile.Polling
import SoftPlc.Proofs.Supervisor.Notices
import SoftPlc.Proofs.Supervisor.Steps

/-!
# What is admitted

Jobs change in two ways. A step may be about one job, and then something is
done to it and to no other; or it is a turn of a call, which leaves all jobs
as they are and may start one more. The new job is the newest and the current
one. `Admits` says so as a law of turns, with the condition on which a job may
be started: no compilation is under way, or it may be replaced.

## Main definitions

* `Action.deed?`: What an action does to a job.
* `Supervisor.SameJobs`: The jobs are the same.
* `Supervisor.Admits`: What a turn does to the jobs.

## Theorems

* `admits_law`: Turns only start jobs, and only admitted ones.
* `Steps.jobs`: What a step does to the jobs.
* `begin_refused`: What is not admitted is refused at once.
-/

namespace SoftPlc

/-- What an action does to a job, if it is about one. -/
def Action.deed? : Action → Option (Nat × Deed)
  | output job input => some (job, .take input)
  | write job => some (job, .write)
  | compilerExit job code => some (job, .exit code)
  | _ => none

namespace Supervisor

variable {s t : Supervisor} {env : Surroundings}

/-- The jobs are the same, and so is what decides whether others may start. -/
structure SameJobs (s t : Supervisor) : Prop where
  jobs : t.jobs = s.jobs
  current : t.current = s.current
  config : t.config = s.config

/-- What a turn does to the jobs. -/
inductive Admits (s t : Supervisor) : Prop
  /-- It leaves them as they are. -/
  | same (h : SameJobs s t)
  /-- It starts one more, which is the newest then, and is admitted. -/
  | starts (source : List UInt8) (jobs : t.jobs = s.jobs ++ [Job.start source])
      (current : t.current = some s.jobs.length) (config : t.config = s.config)
      (admitted : ¬ (s.isCompiling = true ∧ s.config.admission = .reject))

/-- Two stretches that leave the jobs alone are one that does. -/
theorem SameJobs.trans {u : Supervisor} (h : SameJobs s t) (h' : SameJobs t u) : SameJobs s u :=
  ⟨h'.jobs.trans h.jobs, h'.current.trans h.current, h'.config.trans h.config⟩

/-- Whether a compilation is under way is seen from the jobs alone. -/
theorem SameJobs.isCompiling_eq (h : SameJobs s t) : t.isCompiling = s.isCompiling := by
  rw [isCompiling, isCompiling, currentJob?, currentJob?, h.jobs, h.current]

/-- What else changes before and after does not matter. -/
theorem Admits.of_same {u v : Supervisor} (hadmits : Admits s t) (hbefore : SameJobs u s)
    (hafter : SameJobs t v) : Admits u v := by
  cases hadmits with
  | same h => exact .same (hbefore.trans (h.trans hafter))
  | starts source jobs current config admitted =>
      rw [hbefore.jobs] at jobs current
      rw [hbefore.config] at config admitted
      rw [hbefore.isCompiling_eq] at admitted
      exact .starts source (hafter.jobs.trans jobs) (hafter.current.trans current)
        (hafter.config.trans config) admitted

theorem admits_launch : Admits s (s.launch env).1 := by
  unfold launch
  split
  next => exact .same ⟨rfl, rfl, rfl⟩
  next => exact .same ⟨rfl, rfl, rfl⟩

theorem admits_spawnCompiler (source : List UInt8)
    (hadmitted : ¬ (s.isCompiling = true ∧ s.config.admission = .reject)) :
    Admits s (s.spawnCompiler env source).1 := by
  unfold spawnCompiler
  split
  next => exact .same ⟨rfl, rfl, rfl⟩
  next => exact .starts source rfl rfl rfl hadmitted

theorem admits_compileNow (source : List UInt8)
    (h : ¬ (s.isCompiling && s.config.admission == .reject) = true) :
    Admits s (s.compileNow env source).1 := by
  have hadmitted : ¬ (s.isCompiling = true ∧ s.config.admission = .reject) := by
    rintro ⟨hcompiling, hreject⟩
    rw [hcompiling, hreject] at h
    exact h rfl
  rw [compileNow_eq, if_neg h]
  split
  next =>
    -- What is superseded is announced first.
    let told := s.publish { kind := .compileSuperseded }
    have hspawn : Admits told (told.spawnCompiler env source).1 :=
      admits_spawnCompiler source hadmitted
    exact hspawn.of_same ⟨rfl, rfl, rfl⟩ ⟨rfl, rfl, rfl⟩
  next => exact admits_spawnCompiler source hadmitted

/-- Turns only start jobs, and only admitted ones. -/
theorem admits_law (env : Surroundings) : TurnLaw env true fun f s => Admits s (f s).1 where
  comesTo := by
    intro f g s h heq
    have hsame : f s = g s := heq s.journal
    rw [hsame]
    exact h
  finishes := fun _ _ => .same ⟨rfl, rfl, rfl⟩
  pauses := fun _ _ _ => .same ⟨rfl, rfl, rfl⟩
  probes := fun _ _ _ _ _ _ => .same ⟨rfl, rfl, rfl⟩
  joins := fun _ _ _ _ => .same ⟨rfl, rfl, rfl⟩
  quits := fun _ _ _ => .same ⟨rfl, rfl, rfl⟩
  launches := fun _ _ _ => admits_launch
  compiles := fun _ source h => admits_compileNow source h
  closes := fun _ _ => .same ⟨rfl, rfl, rfl⟩
  announces := fun _ _ h => h.of_same ⟨rfl, rfl, rfl⟩ ⟨rfl, rfl, rfl⟩

/-- No completion is about jobs. -/
theorem sameJobs_complete (s : Supervisor) (call : Call) (c : Completion) :
    SameJobs s (s.complete call c) := by
  cases hcall : call.isProbe with
  | true =>
      rw [complete_probe hcall]
      exact ⟨rfl, rfl, rfl⟩
  | false =>
      rw [complete_other hcall]
      exact ⟨rfl, rfl, rfl⟩

/-- Nor is the end of a wait. -/
theorem sameJobs_without (s : Supervisor) (id : Nat) : SameJobs s (s.without id) :=
  ⟨rfl, rfl, rfl⟩

/-- Nor is the end of a turn. -/
theorem sameJobs_endTurn (id : Nat) (r : Result) : SameJobs r.1 (endTurn id r).1 := by
  rcases r with ⟨u, outcome | call⟩
  · exact ⟨rfl, rfl, rfl⟩
  · exact ⟨rfl, rfl, rfl⟩

/-- The turn of a call is preceded by what only concerns calls and the belief. -/
theorem admits_endTurn {id : Nat} {r : Result} (hsame : SameJobs s t) (h : Admits t r.1) :
    Admits s (endTurn id r).1 :=
  h.of_same hsame (sameJobs_endTurn id r)

/-- An action does something to one job, or it only starts jobs. -/
theorem Steps.jobs {action : Action} {r : Supervisor × Option Outcome}
    (h : Steps env s action r) :
    (action.deed? = none ∧ Admits s r.1) ∨
      ∃ i deed job, action.deed? = some (i, deed) ∧ s.jobs[i]? = some job ∧
        r.1.jobs = s.jobs.set i (job.deed deed) ∧ r.1.current = s.current ∧
        r.1.config = s.config := by
  have hlaw := admits_law env
  cases h with
  | begins id request hnone =>
      exact .inl ⟨rfl, admits_endTurn ⟨rfl, rfl, rfl⟩ (hlaw.enter request fun _ => rfl)⟩
  | replies id reply call hcall hex =>
      have hsame := sameJobs_complete (s.without id) call (.replied reply)
      have hturn := hlaw.carryOn hex (fun _ => rfl) reply
        (s := (s.without id).complete call (.replied reply))
      exact .inl ⟨rfl, admits_endTurn ((sameJobs_without s id).trans hsame) hturn⟩
  | wakes id goal hcall =>
      have hturn := hlaw.resume goal (fun _ => rfl) (s := s.without id)
      exact .inl ⟨rfl, admits_endTurn (sameJobs_without s id) hturn⟩
  | abandons id call hcall =>
      have hsame := sameJobs_complete (s.without id) call .dropped
      exact .inl ⟨rfl, .same ((sameJobs_without s id).trans hsame)⟩
  | closes id hcall => exact .inl ⟨rfl, .same (sameJobs_without s id)⟩
  | takes i input job hjob => exact .inr ⟨i, .take input, job, rfl, hjob, rfl, rfl, rfl⟩
  | writes i job hjob => exact .inr ⟨i, .write, job, rfl, hjob, rfl, rfl, rfl⟩
  | compilerExits i code job hjob => exact .inr ⟨i, .exit code, job, rfl, hjob, rfl, rfl, rfl⟩
  | engineExits => exact .inl ⟨rfl, .same ⟨rfl, rfl, rfl⟩⟩

/-- A compilation that is asked for while another must not be replaced is
    refused at once. -/
theorem begin_refused (id : Nat) (source : List UInt8) (hcompiling : s.isCompiling = true)
    (hreject : s.config.admission = .reject) :
    s.begin env id (.compile source)
      = (s.without id, some (.acknowledged (.error .compileInProgress))) := by
  have hcheck : s.check env.now = (s, .known .compiling) := if_pos hcompiling
  have hat : s.compileAt env source .compiling
      = (s, .finished (.acknowledged (.error .compileInProgress))) := by
    rw [compileAt, hreject]
    rfl
  rw [begin, enter, pursue, settleThen, hcheck]
  exact congrArg (endTurn id) hat

/-- The output that is polled is the newest job's. -/
theorem pollLogText_eq {job : Job} (h : s.currentJob? = some job) :
    s.pollLogText.1 = job.pollOutput.1 := by
  rcases Option.bind_eq_some_iff.mp h with ⟨i, hi, hjob⟩
  rw [pollLogText, hi]
  dsimp only
  rw [hjob]

/-- Without a call of that number there is nothing to take away. -/
theorem without_of_none {id : Nat} (h : s.call? id = none) : s.without id = s := by
  have hall : s.calls.filter (fun c => c.1 != id) = s.calls := by
    refine List.filter_eq_self.mpr fun c hc => ?_
    have hne := List.lookup_eq_none_iff.mp h c hc
    rw [bne_iff_ne] at hne ⊢
    exact Ne.symm hne
  rw [without, hall]

end Supervisor

end SoftPlc
