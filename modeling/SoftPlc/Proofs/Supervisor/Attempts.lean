import SoftPlc.Proofs.Supervisor.Admission
import SoftPlc.Proofs.Supervisor.Hearing
import SoftPlc.Proofs.Supervisor.Purposes

/-!
# What a call to compile comes to

A call to compile makes one attempt. Before that it may wait, for a probe or
for the engine to quit, and others may be admitted meanwhile; so the attempt
is decided with the jobs that are there when it is made, and not with those
that were there when the call was made.

Each turn of such a call is taken down as a `Leg`. A turn waits on, and then
it has told nothing of jobs and has left them alone, and no compilation was
under way in it; or it comes to the attempt, and the call is over. Which turns
wait and for what does not matter. In particular a call that finds another
compilation under way, at its first turn or after a wait, does not wait any
more.

That a call is acknowledged and that it has started a job are the same: the
job is the newest and the current one, and those before it are as they were.

## Main definitions

* `Notice.isHerald`: The notices that tell of a new job.
* `Supervisor.Attempt`: What the attempt to compile comes to.
* `Supervisor.Proceeds`: A turn waits on or comes to the attempt.
* `Leg`: A turn of a call.
* `Leg.Comes`: A turn of a call to compile waits on or ends the call.

## Theorems

* `attempt_compileNow`, `proceeds_enter`, `proceeds_carryOn`,
  `proceeds_resume`: What turns come to.
* `leg_step`: What is taken down of a turn.
* `Leg.Comes.acknowledged`, `Leg.Comes.unacknowledged`: A job is started if and
  only if the call is acknowledged.
* `Leg.Comes.refused`: What must not be replaced is not, after a wait as little
  as before it.
-/

namespace SoftPlc

/-- The notice tells of a new job, or that it supersedes another. -/
def Notice.isHerald (n : Notice) : Bool :=
  n.kind == .compileSuperseded || n.kind == .compileStarted

namespace Supervisor

variable {s t : Supervisor} {env : Surroundings} {source : List UInt8} {id : Nat}

/-- What is told of a compilation that is under way when another is admitted. -/
def superseding (s : Supervisor) : List Notice :=
  if s.isCompiling then [{ kind := .compileSuperseded }] else []

/-- A compilation is under way that must not be replaced. -/
def Occupied (s : Supervisor) : Prop :=
  s.isCompiling = true ∧ s.config.admission = .reject

/-- A job is said to be superseded only while a compilation is under way, and
    nothing else is said before the launch. -/
theorem exists_superseding (s : Supervisor) (kind : EventKind) :
    (∃ n ∈ s.superseding, n.kind = kind) ↔
      s.isCompiling = true ∧ kind = .compileSuperseded := by
  unfold superseding
  split
  next hcompiling => simp [hcompiling, eq_comm]
  next hcompiling => simp [hcompiling]

/-- All that is told of a compilation that is under way is told of jobs. -/
theorem isHerald_superseding (s : Supervisor) :
    s.superseding.filter Notice.isHerald = s.superseding := by
  unfold superseding
  split
  next => rfl
  next => rfl

/-- What an attempt to compile comes to, with what it publishes. -/
inductive Attempt (env : Surroundings) (source : List UInt8) (s : Supervisor) :
    Result → List Notice → Prop
  | refused (t : Supervisor) (same : SameJobs s t) (occupied : s.Occupied) :
      Attempt env source s (t, .finished (.acknowledged (.error .compileInProgress))) []
  | failed (t : Supervisor) (same : SameJobs s t) (admitted : ¬ s.Occupied)
      (program : List UInt8) (reason : Failure)
      (launch : env.launchCompiler source = .error reason) :
      Attempt env source s (t, .finished (.acknowledged (.error (.spawn program reason))))
        s.superseding
  | started (t : Supervisor) (pid : Option Nat) (admitted : ¬ s.Occupied)
      (jobs : t.jobs = s.jobs ++ [Job.start source]) (current : t.current = some s.jobs.length) :
      Attempt env source s (t, .finished (.acknowledged (.ok ())))
        (s.superseding ++
          [{ kind := .compileStarted, reason := some (Text.shownPath source), pid }])

/-- The attempt tests with `Bool` what `Occupied` says. -/
theorem occupied_iff :
    s.Occupied ↔ (s.isCompiling && s.config.admission == .reject) = true := by
  rw [Occupied, Bool.and_eq_true, beq_iff_eq]

theorem SameJobs.occupied_iff (h : SameJobs s t) : t.Occupied ↔ s.Occupied := by
  rw [Occupied, Occupied, h.isCompiling_eq, h.config]

/-- What is not refused is told of, and then the compiler is launched. -/
theorem compileNow_on (h : ¬ (s.isCompiling && s.config.admission == .reject) = true)
    (j : Journal) : (s.on j).compileNow env source
      = (s.on (j.publishAll s.superseding)).spawnCompiler env source := by
  rw [compileNow_eq, isCompiling_on, config_on, if_neg h, superseding]
  by_cases hc : s.isCompiling = true
  · rw [if_pos hc, if_pos hc]
    rfl
  · rw [if_neg hc, if_neg hc]
    rfl

/-- The attempt to compile has three outcomes, and each is told of as it is. -/
theorem attempt_compileNow (env : Surroundings) (source : List UInt8) (s : Supervisor) :
    ∃ ns, Publishes (compileNow env source) s ns ∧
      Attempt env source s (s.compileNow env source) ns := by
  by_cases hreject : (s.isCompiling && s.config.admission == .reject) = true
  · have hon : ∀ j, (s.on j).compileNow env source
        = (s.on j, .finished (.acknowledged (.error .compileInProgress))) := by
      intro j
      rw [compileNow_eq, isCompiling_on, config_on, if_pos hreject]
    rcases Publishes.quiet hon with ⟨hpublishes, heq⟩
    rw [heq]
    exact ⟨[], hpublishes, .refused _ ⟨rfl, rfl, rfl⟩ (occupied_iff.mpr hreject)⟩
  · -- From here the supersession is told of, and only then the launch is tried.
    have hadmitted : ¬ s.Occupied := mt occupied_iff.mp hreject
    rcases hlaunch : env.launchCompiler source with reason | pid
    · have hon : ∀ j, (s.on j).compileNow env source = (s.on (j.publishAll s.superseding),
          .finished (.acknowledged (.error (.spawn s.config.compiler.program reason)))) := by
        intro j
        rw [compileNow_on hreject, spawnCompiler, hlaunch]
        rfl
      rcases Publishes.intro hon with ⟨hpublishes, heq⟩
      have hsame : SameJobs s (s.on (s.journal.publishAll s.superseding)) := ⟨rfl, rfl, rfl⟩
      rw [heq]
      exact ⟨_, hpublishes, .failed _ hsame hadmitted _ reason hlaunch⟩
    · let started : Supervisor :=
        { s with jobs := s.jobs ++ [Job.start source], current := some s.jobs.length }
      have hon : ∀ j, (s.on j).compileNow env source = (started.on (j.publishAll
          (s.superseding ++
            [{ kind := .compileStarted, reason := some (Text.shownPath source), pid }])),
          .finished (.acknowledged (.ok ()))) := by
        intro j
        rw [compileNow_on hreject, spawnCompiler, hlaunch, Journal.publishAll_append]
        rfl
      rcases Publishes.intro hon with ⟨hpublishes, heq⟩
      rw [heq]
      exact ⟨_, hpublishes, .started _ pid hadmitted rfl rfl⟩

/-- A turn of a call to compile comes to the attempt; or no compilation is
    under way, and it leaves the jobs alone, publishes nothing and waits. -/
def Proceeds (env : Surroundings) (source : List UInt8) (f : Supervisor → Result)
    (s : Supervisor) : Prop :=
  (∀ j, f (s.on j) = (s.on j).compileNow env source) ∨
    s.isCompiling = false ∧
      ∃ t call, SameJobs s t ∧ ∀ j, f (s.on j) = (t.on j, .waits call)

/-- What is known says whether a compilation is under way. -/
theorem isCompiling_of_known {status : RuntimeStatus} (h : s.lastKnown = status)
    (hstatus : status ≠ .compiling) : s.isCompiling = false :=
  Bool.eq_false_iff.mpr fun hc => hstatus (h.symm.trans (isCompiling_iff_lastKnown.mp hc))

/-- What a turn comes to does not depend on how the turn is written. -/
theorem Proceeds.of_eq {f g : Supervisor → Result} (h : Proceeds env source g s)
    (heq : ∀ j, f (s.on j) = g (s.on j)) : Proceeds env source f s := by
  rcases h with hnow | ⟨hcalm, t, call, hsame, hwaits⟩
  · exact .inl fun j => (heq j).trans (hnow j)
  · exact .inr ⟨hcalm, t, call, hsame, fun j => (heq j).trans (hwaits j)⟩

theorem proceeds_settleThen {goal : Goal} {go : RuntimeStatus → Supervisor → Result}
    (hgo : Proceeds env source (go s.lastKnown) s) :
    Proceeds env source (fun s => s.settleThen env.now goal go) s := by
  rcases settleThen_cases s env.now goal go with
    ⟨launch, _, hrunning, _, hon⟩ | ⟨hunknown, hon⟩ | ⟨_, _, hon⟩
  · exact .inr ⟨isCompiling_of_known hrunning RuntimeStatus.noConfusion,
      { s with belief := .probing launch }, _, ⟨rfl, rfl, rfl⟩, hon⟩
  · exact .inr ⟨isCompiling_of_known hunknown RuntimeStatus.noConfusion,
      s, _, ⟨rfl, rfl, rfl⟩, hon⟩
  · exact hgo.of_eq hon

theorem proceeds_stopAt : Proceeds env source (stopAt env (.compile source) s.lastKnown) s := by
  cases hk : s.lastKnown with
  | running =>
      exact .inr ⟨isCompiling_of_known hk RuntimeStatus.noConfusion,
        s, .quitting (.compile source), ⟨rfl, rfl, rfl⟩, fun _ => rfl⟩
  | stopped => exact .inl fun _ => rfl
  | compiling => exact .inl fun _ => rfl
  | unknown => exact .inl fun _ => rfl

/-- Whether the status refuses a compilation or the attempt does comes to the same. -/
theorem proceeds_compileAt : Proceeds env source (compileAt env source s.lastKnown) s := by
  cases hk : s.lastKnown with
  | compiling =>
      refine .inl fun j => ?_
      rw [compileAt, compileNow_eq, isCompiling_on, config_on, isCompiling_iff_lastKnown.mpr hk,
        Bool.true_and]
      by_cases hreject : (s.config.admission == .reject) = true
      · rw [if_pos hreject, if_pos hreject]
      · rw [if_neg hreject, if_neg hreject]
  | running => exact proceeds_settleThen proceeds_stopAt
  | stopped => exact .inl fun _ => rfl
  | unknown => exact .inl fun _ => rfl

theorem afterStop_of_purpose {after : AfterStop} (h : after.purpose = .compile source) :
    after = .compile source := by
  cases after with
  | compile there => exact congrArg _ (Purpose.compile.inj h)
  | _ => exact absurd h (by simp only [AfterStop.purpose, reduceCtorEq, not_false_eq_true])

theorem proceeds_proceed {goal : Goal} (h : goal.purpose = .compile source) :
    Proceeds env source (proceed env goal s.lastKnown) s := by
  cases goal with
  | compile there =>
      rw [Purpose.compile.inj h]
      exact proceeds_compileAt
  | stop after =>
      rw [afterStop_of_purpose h]
      exact proceeds_stopAt
  | _ => exact absurd h (by simp only [Goal.purpose, reduceCtorEq, not_false_eq_true])

/-- A call to compile that goes on with a settled status comes to the attempt,
    or begins to ask the engine to quit. -/
theorem proceeds_resume {goal : Goal} (h : goal.purpose = .compile source) :
    Proceeds env source (fun s => s.resume env goal s.lastKnown) s := by
  have hproceed : Proceeds env source (proceed env goal s.lastKnown) s := proceeds_proceed h
  by_cases hk : s.lastKnown = .unknown
  · have hpursue : Proceeds env source (pursue env goal) s := proceeds_settleThen hproceed
    exact hpursue.of_eq fun j => by rw [lastKnown_on, resume_eq, if_pos hk]
  · exact hproceed.of_eq fun j => by rw [lastKnown_on, resume_eq, if_neg hk]

/-- So does one that has just been made, or it begins by settling the status. -/
theorem proceeds_enter : Proceeds env source (enter env (.compile source)) s := by
  have hproceed : Proceeds env source (proceed env (.compile source) s.lastKnown) s :=
    proceeds_proceed rfl
  exact proceeds_settleThen hproceed

/-- And one that got the reply it waited for, whatever the reply is. If it had
    asked the engine to quit, the attempt is next. -/
theorem proceeds_carryOn {call : Call} (h : call.purpose = .compile source)
    (hex : call.exchange?.isSome = true) (reply : Except ControlError String) :
    Proceeds env source (fun s => s.carryOn env call reply) s := by
  cases call with
  | probing goal => exact proceeds_resume h
  | waiting goal signalled => exact absurd hex Bool.false_ne_true
  | quitting after =>
      rw [afterStop_of_purpose h]
      exact .inl fun _ => rfl
  | _ => exact absurd h (by simp only [Call.purpose, reduceCtorEq, not_false_eq_true])

/-- What a turn of a call to compile comes to. -/
theorem Proceeds.comes {f : Supervisor → Result} (h : Proceeds env source f s) :
    ∃ ns, Publishes f s ns ∧
      (Attempt env source s (f s) ns ∨
        ns = [] ∧ s.isCompiling = false ∧
          ∃ t call, f s = (t, .waits call) ∧ SameJobs s t) := by
  rcases h with hnow | ⟨hcalm, t, call, hsame, hwaits⟩
  · rcases attempt_compileNow env source s with ⟨ns, hpublishes, hattempt⟩
    have hs : f s = s.compileNow env source := hnow s.journal
    refine ⟨ns, fun j => ?_, .inl (hs ▸ hattempt)⟩
    rw [hnow, hs]
    exact hpublishes j
  · rcases Publishes.quiet hwaits with ⟨hpublishes, heq⟩
    exact ⟨[], hpublishes,
      .inr ⟨rfl, hcalm, _, call, heq, hsame.jobs, hsame.current, hsame.config⟩⟩

/-- No completion tells of jobs. -/
theorem isHerald_announces (call : Call) (c : Completion) :
    (s.announces call c).filter Notice.isHerald = [] := by
  have hverdict : ∀ reply, (s.verdict reply).filter Notice.isHerald = [] := by
    intro reply
    unfold verdict
    split
    next => rfl
    next => rfl
  have htoggle : ∀ toggle, ([toggleNotice toggle] : List Notice).filter Notice.isHerald = [] := by
    intro toggle
    cases toggle <;> rfl
  cases c with
  | dropped => rfl
  | replied reply =>
      cases call with
      | asking => exact hverdict reply
      | probing goal => exact hverdict reply
      | quitting after => cases reply <;> rfl
      | toggling errand =>
          cases reply with
          | ok => exact htoggle errand.toggle
          | error e => rfl
      | _ => rfl

end Supervisor

open Supervisor (SameJobs)

/-- A turn of a call. -/
structure Leg where
  before : Supervisor
  /-- What was published in it. -/
  told : List Notice
  after : Supervisor

namespace Leg

/-- The turn leaves the jobs alone and tells nothing of them. -/
structure Idle (leg : Leg) : Prop where
  same : SameJobs leg.before leg.after
  silent : leg.told.filter Notice.isHerald = []

/-- How the last turn of a call to compile ends. -/
inductive Ends (source : List UInt8) (leg : Leg) : Option Outcome → Prop
  | dropped (idle : leg.Idle) : Ends source leg none
  | refused (idle : leg.Idle) :
      Ends source leg (some (.acknowledged (.error .compileInProgress)))
  | failed (program : List UInt8) (reason : Failure) (admitted : ¬ leg.before.Occupied)
      (same : SameJobs leg.before leg.after)
      (told : leg.told.filter Notice.isHerald = leg.before.superseding) :
      Ends source leg (some (.acknowledged (.error (.spawn program reason))))
  | started (pid : Option Nat) (admitted : ¬ leg.before.Occupied)
      (jobs : leg.after.jobs = leg.before.jobs ++ [Job.start source])
      (current : leg.after.current = some leg.before.jobs.length)
      (told : leg.told.filter Notice.isHerald = leg.before.superseding ++
        [{ kind := .compileStarted, reason := some (Text.shownPath source), pid }]) :
      Ends source leg (some (.acknowledged (.ok ())))

/-- A turn of a call to compile: no compilation is under way and the call waits
    on, or it is over. -/
inductive Comes (source : List UInt8) (id : Nat) (leg : Leg) : Option Outcome → Prop
  | waits (call : (leg.after.call? id).isSome = true)
      (calm : leg.before.isCompiling = false) (idle : leg.Idle) : Comes source id leg none
  | ends (outcome : Option Outcome) (gone : (leg.after.call? id).isSome = false)
      (ends : leg.Ends source outcome) : Comes source id leg outcome

end Leg

namespace Supervisor

variable {s : Supervisor} {env : Surroundings} {source : List UInt8} {id : Nat}
  {action : Action}

/-- A turn opens with what concerns neither jobs nor what is told of them. -/
theorem leg_turn {u : Supervisor} {f : Supervisor → Result} (announced : List Notice)
    (hsame : SameJobs s u) (hquiet : announced.filter Notice.isHerald = [])
    (hproceeds : Proceeds env source f u)
    (hhears : ∀ ns, Publishes f u ns →
      Hears s env action (endTurn id (f u)) (announced ++ ns)) :
    Leg.Comes source id ⟨s, s.told (.act env action), (endTurn id (f u)).1⟩
      (endTurn id (f u)).2 := by
  rcases hproceeds.comes with ⟨ns, hpublishes, hcomes⟩
  have htold : (s.told (.act env action)).filter Notice.isHerald = ns.filter Notice.isHerald := by
    rw [(hhears ns hpublishes).told_eq, List.filter_append, hquiet, List.nil_append]
  have hsuperseding : u.superseding = s.superseding := by
    rw [superseding, superseding, hsame.isCompiling_eq]
  have hover : ∀ {t : Supervisor} {turn : Turn}, SameJobs u t →
      SameJobs s (endTurn id (t, turn)).1 :=
    fun h => (hsame.trans h).trans (sameJobs_endTurn id (_, _))
  -- The call is among those that wait if and only if its turn says so.
  have hcall := call?_endTurn_self id (f u)
  rcases hcomes with hattempt | ⟨rfl, hcalm, t, call, heq, hwaits⟩
  · generalize f u = r at *
    cases hattempt with
    | refused t same =>
        exact .ends _ (congrArg Option.isSome hcall) (.refused ⟨hover same, htold⟩)
    | failed t same admitted program reason =>
        have hadmitted := mt hsame.occupied_iff.mpr admitted
        refine .ends _ (congrArg Option.isSome hcall)
          (.failed program reason hadmitted (hover same) ?_)
        exact htold.trans (hsuperseding ▸ isHerald_superseding s)
    | started t pid admitted jobs current =>
        have hadmitted := mt hsame.occupied_iff.mpr admitted
        refine .ends _ (congrArg Option.isSome hcall) (.started pid hadmitted ?_ ?_ ?_)
        · exact hsame.jobs ▸ jobs
        · exact hsame.jobs ▸ current
        · refine htold.trans ?_
          rw [List.filter_append, hsuperseding, isHerald_superseding]
          rfl
  · rw [heq] at hcall ⊢
    rw [hsame.isCompiling_eq] at hcalm
    exact .waits (congrArg Option.isSome hcall) hcalm ⟨hover hwaits, htold⟩

/-- A turn of a call to compile leaves the jobs alone and waits on, or the call
    is over. -/
theorem leg_step {r : Supervisor × Option Outcome} (h : Steps env s action r)
    (hcaller : action.caller? = some id)
    (hpurpose : action = .begin id (.compile source) ∨
      ∃ call, s.call? id = some call ∧ call.purpose = .compile source) :
    Leg.Comes source id ⟨s, s.told (.act env action), r.1⟩ r.2 := by
  have hidle : ∀ {t : Supervisor}, SameJobs s t → s.told (.act env action) = [] →
      Leg.Idle ⟨s, s.told (.act env action), t⟩ := by
    intro t hsame htold
    refine ⟨hsame, ?_⟩
    dsimp only
    rw [htold]
    rfl
  -- Only turns of the call itself are left, and whichever it is, what it was made
  -- for says how it goes on.
  cases h with
  | begins k request hnone =>
      cases hcaller
      rcases hpurpose with heq | ⟨call, hcall, _⟩
      · cases heq
        exact leg_turn [] ⟨rfl, rfl, rfl⟩ rfl proceeds_enter
          fun ns hns => hears_begin hnone hns
      · exact absurd (hcall.symm.trans hnone) (Option.some_ne_none call)
  | replies k reply call hcall hex =>
      cases hcaller
      have hcompile := purpose_of_call? hcall hpurpose Action.noConfusion
      exact leg_turn _ ((sameJobs_without s id).trans (sameJobs_complete _ call _))
        (isHerald_announces call (.replied reply)) (proceeds_carryOn hcompile hex reply)
        fun ns hns => hears_reply hcall hex hns
  | wakes k goal hcall =>
      cases hcaller
      have hcompile : goal.purpose = _ := purpose_of_call? hcall hpurpose Action.noConfusion
      exact leg_turn (f := fun s => s.resume env goal s.lastKnown) [] (sameJobs_without s id) rfl
        (proceeds_resume hcompile) fun ns hns => hears_wake hcall hns
  | abandons k call hcall =>
      cases hcaller
      have hover := (Opens.completes call .dropped hcall).call?_self
      refine .ends _ (by rw [hover]; rfl) (.dropped (hidle ?_ (hears_abandon hcall).told_eq))
      exact (sameJobs_without s id).trans (sameJobs_complete (s.without id) call .dropped)
  | closes k hcall =>
      cases hcaller
      have hcompile := purpose_of_call? hcall hpurpose Action.noConfusion
      exact absurd hcompile (by simp only [Call.purpose, reduceCtorEq, not_false_eq_true])
  | _ => exact absurd hcaller (by simp only [Action.caller?, reduceCtorEq, not_false_eq_true])

end Supervisor

/-- The call was acknowledged. -/
def Acknowledged (outcome : Option Outcome) : Prop :=
  outcome = some (.acknowledged (.ok ()))

/-- The call was refused because of another compilation. -/
def Refused (outcome : Option Outcome) : Prop :=
  outcome = some (.acknowledged (.error .compileInProgress))

theorem not_acknowledged_of_refused {outcome : Option Outcome} (h : Refused outcome) :
    ¬ Acknowledged outcome := by
  rw [Refused] at h
  rw [h, Acknowledged]
  simp only [Option.some.injEq, Outcome.acknowledged.injEq, reduceCtorEq, not_false_eq_true]

namespace Leg

variable {leg : Leg} {source : List UInt8} {id : Nat} {outcome : Option Outcome}

/-- A call that is acknowledged has started a job and has said so. -/
theorem Ends.acknowledged (h : leg.Ends source outcome) (hok : Acknowledged outcome) :
    (∃ n ∈ leg.told.filter Notice.isHerald, n.kind = .compileStarted) ∧
      leg.after.jobs = leg.before.jobs ++ [Job.start source] ∧
      leg.after.current = some leg.before.jobs.length := by
  cases h with
  | dropped => exact absurd hok (by simp [Acknowledged])
  | refused => exact absurd hok (by simp [Acknowledged])
  | failed => exact absurd hok (by simp [Acknowledged])
  | started pid admitted jobs current told =>
      rw [told]
      exact ⟨⟨_, List.mem_append_right _ (List.mem_singleton_self _), rfl⟩, jobs, current⟩

/-- A call that is not acknowledged starts nothing, and says nothing of the
    kind. -/
theorem Ends.unacknowledged (h : leg.Ends source outcome) (hno : ¬ Acknowledged outcome) :
    (¬ ∃ n ∈ leg.told.filter Notice.isHerald, n.kind = .compileStarted) ∧
      SameJobs leg.before leg.after := by
  cases h with
  | dropped idle =>
      rw [idle.silent]
      exact ⟨fun ⟨_, hn, _⟩ => List.not_mem_nil hn, idle.same⟩
  | refused idle =>
      rw [idle.silent]
      exact ⟨fun ⟨_, hn, _⟩ => List.not_mem_nil hn, idle.same⟩
  | failed program reason admitted same told =>
      rw [told, Supervisor.exists_superseding]
      exact ⟨fun h => EventKind.noConfusion h.2, same⟩
  | started => exact absurd rfl hno

/-- Whether the call waits tells which of the two it is. -/
theorem Comes.idle (h : leg.Comes source id outcome)
    (hwaits : (leg.after.call? id).isSome = true) : leg.Idle := by
  cases h with
  | waits call calm idle => exact idle
  | ends outcome gone => exact absurd (gone.symm.trans hwaits) Bool.false_ne_true

theorem Comes.over (h : leg.Comes source id outcome)
    (hover : ¬ (leg.after.call? id).isSome = true) : leg.Ends source outcome := by
  cases h with
  | waits call => exact absurd call hover
  | ends outcome gone ends => exact ends

/-- If a turn of a call to compile acknowledges it, the turn has started the
    job, which is the newest then and the current one. -/
theorem Comes.acknowledged (h : leg.Comes source id outcome) (hok : Acknowledged outcome) :
    leg.after.jobs = leg.before.jobs ++ [Job.start source] ∧
      leg.after.current = some leg.before.jobs.length := by
  cases h with
  | waits => exact absurd hok (by simp [Acknowledged])
  | ends outcome gone ends => exact (ends.acknowledged hok).2

/-- All other turns of the call leave the jobs as they are, whether it waits on
    or is over. -/
theorem Comes.unacknowledged (h : leg.Comes source id outcome) (hno : ¬ Acknowledged outcome) :
    SameJobs leg.before leg.after := by
  cases h with
  | waits call calm idle => exact idle.same
  | ends outcome gone ends => exact (ends.unacknowledged hno).2

/-- A turn that finds a compilation under way that must not be replaced is the
    last of its call. It makes no difference whether the call has waited before:
    it does not wait any more, and unless it is given up it is refused. -/
theorem Comes.refused (h : leg.Comes source id outcome) (hoccupied : leg.before.Occupied) :
    (leg.after.call? id).isSome = false ∧ (outcome = none ∨ Refused outcome) := by
  cases h with
  | waits call calm => exact absurd (calm.symm.trans hoccupied.1) Bool.false_ne_true
  | ends outcome gone ends =>
      refine ⟨gone, ?_⟩
      cases ends with
      | dropped => exact .inl rfl
      | refused => exact .inr rfl
      | failed program reason admitted => exact absurd hoccupied admitted
      | started pid admitted => exact absurd hoccupied admitted

end Leg

namespace Supervisor

variable {s : Supervisor} {env : Surroundings} {id : Nat} {action : Action}

/-- A call that is over and has come to nothing was given up. All others that
    are over have an outcome. -/
theorem Steps.abandoned {r : Supervisor × Option Outcome} (h : Steps env s action r)
    (hcaller : action.caller? = some id) (hover : (r.1.call? id).isSome = false)
    (hnone : r.2 = none) : action = .abandon id := by
  -- A turn that ends without an outcome leaves its call waiting.
  have hwaits : ∀ r : Result, (endTurn id r).2 = none →
      ((endTurn id r).1.call? id).isSome = true := by
    intro r hr
    rw [call?_endTurn_self]
    rcases r with ⟨t, outcome | call⟩
    · exact absurd hr (Option.some_ne_none outcome)
    · rfl
  cases h with
  | begins | replies | wakes =>
      cases hcaller
      exact absurd (hover.symm.trans (hwaits _ hnone)) Bool.false_ne_true
  | abandons => cases hcaller; rfl
  | closes => exact absurd hnone (Option.some_ne_none _)
  | _ => exact absurd hcaller (by simp only [Action.caller?, reduceCtorEq, not_false_eq_true])

end Supervisor

end SoftPlc
