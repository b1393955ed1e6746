import SoftPlc.Supervisor.Step

/-!
# What turns are made of

The operations of the supervisor call each other, but they are made of few
parts. A turn finishes, or waits for something that is not about the belief;
it notes a probe and waits for the reply, or joins a probe that another has
noted; it orders the engine to quit, launches it, has a compilation admitted,
or begins to close. `TurnLaw` is something that holds of these parts, and it
then holds of every turn. The operations are gone through once, here, and what
is proved of turns elsewhere names only the parts.

A law is about operations as functions and not only about what they return,
because one thing to be said of them is that they do the same on any journal.
An operation may therefore be exchanged for another that it comes to,
whatever the journal.

The parts need not be right in every state. The engine is launched and told to
quit, a probe joined and a compilation admitted on conditions, and the
conditions are part of the law. A launch needs also that the call may start
the engine, which is what most calls may not do.

What is asked of a running engine has a ground besides: the engine was launched
so recently that it is believed without a probe, or the operation goes on with
a status that it was given. `GroundedLaw` is the law with the grounds among
the conditions, and the operations are gone through for it. Where the grounds
do not matter `TurnLaw` is enough.

## Main definitions

* `Supervisor.on`: The same state with another journal.
* `Supervisor.graced`: The engine is believed without a probe.
* `Call.isBystander`: The calls that have nothing to do with the belief.
* `Call.starts`: The calls that want the engine started.
* `Supervisor.GroundedLaw`: Something that holds of the parts on their grounds.
* `Supervisor.TurnLaw`: Something that holds of the parts.

## Theorems

* `check_cases`, `settleThen_cases`: What a question for the status comes to,
  and what an operation that wants it first.
* `GroundedLaw.enter`, `GroundedLaw.pursue`, `GroundedLaw.resume`,
  `TurnLaw.enter`, `TurnLaw.resume`: It holds of all turns.
-/

namespace SoftPlc

/-- The status that a belief is known as while nothing is compiled. -/
def Belief.status : Belief → RuntimeStatus
  | stopped => .stopped
  | running _ => .running
  | probing _ => .unknown

/-- The call neither settles the status nor waits until that is done. -/
def Call.isBystander : Call → Bool
  | readingTime => true
  | readingLogs => true
  | toggling _ => true
  | closing => true
  | _ => false

/-- The goal is to have the engine started. -/
def Goal.isStart : Goal → Bool
  | start => true
  | _ => false

/-- The call waits to have the engine started. -/
def Call.starts : Call → Bool
  | probing goal => goal.isStart
  | waiting goal _ => goal.isStart
  | _ => false

namespace Supervisor

variable {s : Supervisor} {env : Surroundings}

/-- Only a compilation hides the belief. -/
theorem status_of_lastKnown {status : RuntimeStatus} (h : s.lastKnown = status)
    (hne : status ≠ .compiling) : s.belief.status = status := by
  unfold lastKnown at h
  split at h
  next => exact absurd h.symm hne
  next => exact h

/-- An engine that is known to run is believed to. -/
theorem belief_of_lastKnown_running (h : s.lastKnown = .running) :
    ∃ launch, s.belief = .running launch := by
  have hs := status_of_lastKnown h (by simp only [ne_eq, reduceCtorEq, not_false_eq_true])
  cases hb : s.belief with
  | stopped => rw [hb] at hs; exact RuntimeStatus.noConfusion hs
  | running launch => exact ⟨launch, rfl⟩
  | probing launch => rw [hb] at hs; exact RuntimeStatus.noConfusion hs

/-- The status is unknown only while a probe is noted. -/
theorem belief_of_lastKnown_unknown (h : s.lastKnown = .unknown) :
    ∃ launch, s.belief = .probing launch := by
  have hs := status_of_lastKnown h (by simp only [ne_eq, reduceCtorEq, not_false_eq_true])
  cases hb : s.belief with
  | stopped => rw [hb] at hs; exact RuntimeStatus.noConfusion hs
  | running launch => rw [hb] at hs; exact RuntimeStatus.noConfusion hs
  | probing launch => exact ⟨launch, rfl⟩

/-- Where nobody probes the status is known. -/
theorem lastKnown_ne_unknown (h : ∀ launch, s.belief ≠ .probing launch) :
    s.lastKnown ≠ .unknown := by
  intro hunknown
  rcases belief_of_lastKnown_unknown hunknown with ⟨launch, hb⟩
  exact h launch hb

/-- A session that is known to be stopped believes in no engine. -/
theorem belief_of_lastKnown_stopped (h : s.lastKnown = .stopped) : s.belief = .stopped := by
  have hs := status_of_lastKnown h (by simp only [ne_eq, reduceCtorEq, not_false_eq_true])
  cases hb : s.belief with
  | stopped => rfl
  | running launch => rw [hb] at hs; exact RuntimeStatus.noConfusion hs
  | probing launch => rw [hb] at hs; exact RuntimeStatus.noConfusion hs

/-- A compilation that is under way is what is known, whatever is believed of
    the engine. -/
theorem isCompiling_iff_lastKnown : s.isCompiling = true ↔ s.lastKnown = .compiling := by
  unfold lastKnown
  by_cases hc : s.isCompiling = true
  · rw [if_pos hc]
    exact iff_of_true hc rfl
  · rw [if_neg hc]
    refine iff_of_false hc ?_
    cases s.belief <;> exact RuntimeStatus.noConfusion

/-- The launch that is believed in is so recent that it is believed in without
    a probe. -/
def graced (s : Supervisor) (now : Nat) : Bool :=
  s.belief.launch?.any (s.inGrace now)

/-- A question for the status notes a probe of the launch that is believed to
    run, once it is not recent any more, or it is answered by what is known. -/
theorem check_cases (s : Supervisor) (now : Nat) :
    (∃ launch, s.belief = .running launch ∧ s.lastKnown = .running ∧ s.graced now = false ∧
        s.check now = ({ s with belief := .probing launch }, .probe)) ∨
      ((s.lastKnown = .running → s.graced now = true) ∧
        s.check now = (s, .known s.lastKnown)) := by
  unfold check lastKnown
  by_cases hc : s.isCompiling = true
  · rw [if_pos hc, if_pos hc]
    exact .inr ⟨RuntimeStatus.noConfusion, rfl⟩
  · rw [if_neg hc, if_neg hc]
    rcases hb : s.belief with _ | launch | launch
    · exact .inr ⟨RuntimeStatus.noConfusion, rfl⟩
    · have hgraced : s.graced now = s.inGrace now launch := by
        rw [graced, hb]
        rfl
      by_cases hg : s.inGrace now launch = true
      · exact .inr ⟨fun _ => hgraced.trans hg, by dsimp only; rw [if_pos hg]⟩
      · refine .inl ⟨launch, rfl, rfl, ?_, by dsimp only; rw [if_neg hg]⟩
        exact hgraced.trans (Bool.eq_false_iff.mpr hg)
    · exact .inr ⟨RuntimeStatus.noConfusion, rfl⟩

/-- The same state with another journal. -/
def on (s : Supervisor) (j : Journal) : Supervisor :=
  { s with journal := j }

@[simp] theorem lastKnown_on (s : Supervisor) (j : Journal) :
    (s.on j).lastKnown = s.lastKnown := rfl

@[simp] theorem isCompiling_on (s : Supervisor) (j : Journal) :
    (s.on j).isCompiling = s.isCompiling := rfl

@[simp] theorem config_on (s : Supervisor) (j : Journal) : (s.on j).config = s.config := rfl

@[simp] theorem belief_on (s : Supervisor) (j : Journal) : (s.on j).belief = s.belief := rfl

@[simp] theorem inGrace_on (s : Supervisor) (j : Journal) (now : Nat) (launch : Launch) :
    (s.on j).inGrace now launch = s.inGrace now launch := rfl

/-- Which status is known does not depend on the journal. -/
theorem check_on (s : Supervisor) (j : Journal) (now : Nat) :
    (s.on j).check now = ((s.check now).1.on j, (s.check now).2) := by
  unfold check
  rw [isCompiling_on]
  by_cases hc : s.isCompiling = true
  · rw [if_pos hc, if_pos hc]
  · rw [if_neg hc, if_neg hc]
    rw [belief_on]
    rcases s.belief with _ | launch | launch
    · rfl
    · dsimp only
      rw [inGrace_on]
      by_cases hg : s.inGrace now launch = true
      · rw [if_pos hg, if_pos hg]
      · rw [if_neg hg, if_neg hg]
        rfl
    · rfl

/-- Whoever wants the status first probes the engine, waits for a probe that is
    noted, or goes on with what is known, whatever the journal is. -/
theorem settleThen_cases (s : Supervisor) (now : Nat) (goal : Goal)
    (go : RuntimeStatus → Supervisor → Result) :
    (∃ launch, s.belief = .running launch ∧ s.lastKnown = .running ∧ s.graced now = false ∧
        ∀ j, (s.on j).settleThen now goal go
          = (({ s with belief := .probing launch } : Supervisor).on j, .waits (.probing goal))) ∨
      (s.lastKnown = .unknown ∧
        ∀ j, (s.on j).settleThen now goal go = (s.on j, .waits (.waiting goal false))) ∨
      (s.lastKnown ≠ .unknown ∧ (s.lastKnown = .running → s.graced now = true) ∧
        ∀ j, (s.on j).settleThen now goal go = go s.lastKnown (s.on j)) := by
  rcases check_cases s now with ⟨launch, hb, hk, hg, hcheck⟩ | ⟨hgraced, hcheck⟩
  · refine .inl ⟨launch, hb, hk, hg, fun j => ?_⟩
    rw [settleThen, check_on, hcheck]
  · have hon : ∀ j, (s.on j).check now = (s.on j, .known s.lastKnown) := by
      intro j
      rw [check_on, hcheck]
    cases hk : s.lastKnown with
    | unknown => exact .inr (.inl ⟨rfl, fun j => by rw [settleThen, hon, hk]⟩)
    | _ =>
        rw [hk] at hgraced
        exact .inr (.inr ⟨RuntimeStatus.noConfusion, hgraced, fun j => by
          rw [settleThen, hon, hk]⟩)

/-- What is known is gone on with, unless it is not known. -/
theorem resume_eq (s : Supervisor) (env : Surroundings) (goal : Goal) (status : RuntimeStatus) :
    s.resume env goal status
      = if status = .unknown then s.pursue env goal else s.proceed env goal status := by
  cases status <;> rfl

/-- Something that holds of every part that a turn can be made of, on the
    ground that it has. The engine is launched only if it may be. It is told
    something, or said to run, where it is known to run, and either it is
    believed without a probe or the status that the turn was given is trusted. -/
structure GroundedLaw (env : Surroundings) (may : Bool) (trusted : Prop)
    (P : (Supervisor → Result) → Supervisor → Prop) : Prop where
  comesTo : ∀ {f g s}, P g s → (∀ j, f (s.on j) = g (s.on j)) → P f s
  finishes : ∀ s outcome, outcome ≠ .started (.ok .running) → P (fun s => (s, .finished outcome)) s
  confirms : ∀ s, s.lastKnown = .running → s.graced env.now = true ∨ trusted →
    P (fun s => (s, .finished (.started (.ok .running)))) s
  pauses : ∀ s call, call.isBystander = true → s.lastKnown = .running →
    s.graced env.now = true ∨ trusted → P (fun s => (s, .waits call)) s
  probes : ∀ s call launch, s.belief = .running launch → s.lastKnown = .running →
    s.graced env.now = false → call.isProbe = true → (call.starts = true → may = true) →
    P (fun s => ({ s with belief := .probing launch }, .waits call)) s
  joins : ∀ s goal, s.lastKnown = .unknown → (goal.isStart = true → may = true) →
    P (fun s => (s, .waits (.waiting goal false))) s
  quits : ∀ s after, s.lastKnown = .running → s.graced env.now = true ∨ trusted →
    P (fun s => (s, .waits (.quitting after))) s
  launches : ∀ s, s.lastKnown = .stopped → may = true → P (Supervisor.launch env) s
  /-- A compilation is admitted where none is under way, or may be replaced. -/
  compiles : ∀ s source, ¬ (s.isCompiling && s.config.admission == .reject) = true →
    P (Supervisor.compileNow env source) s
  closes : ∀ s, s.cancelled = false →
    P (fun s => ({ s with cancelled := true }, .waits .closing)) s
  announces : ∀ s f, P f (s.publish { kind := .shutdownRequested }) →
    P (fun s => f (s.publish { kind := .shutdownRequested })) s

namespace GroundedLaw

variable {may : Bool} {trusted : Prop} {P : (Supervisor → Result) → Supervisor → Prop}

/-- The beginning that the operations share. Whoever goes on at once with a
    running engine goes on because it is believed without a probe. -/
theorem settleThen (h : GroundedLaw env may trusted P) {goal : Goal}
    {go : RuntimeStatus → Supervisor → Result} (hgoal : goal.isStart = true → may = true)
    (hgo : s.lastKnown ≠ .unknown →
      (s.lastKnown = .running → s.graced env.now = true ∨ trusted) → P (go s.lastKnown) s) :
    P (fun s => s.settleThen env.now goal go) s := by
  rcases settleThen_cases s env.now goal go with
    ⟨launch, hb, hk, hg, hon⟩ | ⟨hk, hon⟩ | ⟨hk, hgraced, hon⟩
  · exact h.comesTo (h.probes s (.probing goal) launch hb hk hg rfl hgoal) hon
  · exact h.comesTo (h.joins s goal hk hgoal) hon
  · exact h.comesTo (hgo hk fun hrunning => .inl (hgraced hrunning)) hon

/-- A start launches where nothing runs, or refuses. -/
theorem startAt (h : GroundedLaw env may trusted P) (hmay : may = true)
    (hground : s.lastKnown = .running → s.graced env.now = true ∨ trusted) :
    P (Supervisor.startAt env s.lastKnown) s := by
  cases hk : s.lastKnown with
  | stopped =>
      refine h.comesTo (h.launches s hk hmay) fun j => ?_
      unfold Supervisor.startAt
      rw [lastKnown_on, hk]
  | running => exact h.comesTo (h.confirms s hk (hground hk)) fun _ => rfl
  | compiling => exact h.comesTo (h.finishes s _ fun hno => by cases hno) fun _ => rfl
  | unknown => exact h.comesTo (h.finishes s _ fun hno => by cases hno) fun _ => rfl

/-- An attempt to compile is refused, or it is one of the parts of turns itself. -/
theorem compileNow (h : GroundedLaw env may trusted P) (source : List UInt8) :
    P (Supervisor.compileNow env source) s := by
  by_cases hreject : (s.isCompiling && s.config.admission == .reject) = true
  · refine h.comesTo (h.finishes s (.acknowledged (.error .compileInProgress))
      Outcome.noConfusion) fun j => ?_
    rw [Supervisor.compileNow, isCompiling_on, config_on, if_pos hreject]
  · exact h.compiles s source hreject

/-- Telling the background work to end is waited for once. -/
theorem cancel (h : GroundedLaw env may trusted P) : P Supervisor.cancel s := by
  by_cases hc : s.cancelled = true
  · exact h.comesTo (h.finishes s .shutDown Outcome.noConfusion) fun _ => if_pos hc
  · exact h.comesTo (h.closes s (Bool.eq_false_iff.mpr hc)) fun _ => if_neg hc

/-- What follows on the order to quit depends on what it was given for. -/
theorem afterStop (h : GroundedLaw env may trusted P) (after : AfterStop)
    (result : Except RuntimeError Unit) : P (Supervisor.afterStop env after result) s := by
  cases after with
  | answer =>
      exact h.comesTo (h.finishes s (.acknowledged result) Outcome.noConfusion) fun _ => rfl
  | compile source => exact h.compileNow source
  | shutdown => exact h.cancel

/-- The order to quit is given where the engine is known to run, on the ground
    that it is. -/
theorem stopAt (h : GroundedLaw env may trusted P) (after : AfterStop)
    (hground : s.lastKnown = .running → s.graced env.now = true ∨ trusted) :
    P (Supervisor.stopAt env after s.lastKnown) s := by
  cases hk : s.lastKnown with
  | running => exact h.quits s after hk (hground hk)
  | stopped => exact h.afterStop after (.ok ())
  | compiling => exact h.afterStop after (.error (.busy .compiling "stop"))
  | unknown => exact h.afterStop after (.error (.busy .unknown "stop"))

theorem stopThen (h : GroundedLaw env may trusted P) (after : AfterStop) :
    P (Supervisor.stopThen env after) s :=
  h.settleThen (fun hstart => absurd hstart Bool.false_ne_true) fun _ => h.stopAt after

/-- A compilation stops the engine first where that runs. The ground for this is
    found anew, since the status is settled once more. -/
theorem compileAt (h : GroundedLaw env may trusted P) (source : List UInt8)
    (status : RuntimeStatus) : P (Supervisor.compileAt env source status) s := by
  cases status with
  | compiling =>
      by_cases hreject : (s.config.admission == .reject) = true
      · exact h.comesTo (h.finishes s (.acknowledged (.error .compileInProgress))
          Outcome.noConfusion) fun _ => if_pos hreject
      · exact h.comesTo (h.compileNow source) fun _ => if_neg hreject
  | running => exact h.stopThen (.compile source)
  | stopped => exact h.compileNow source
  | unknown => exact h.compileNow source

/-- Commands are for a running engine. -/
theorem command (h : GroundedLaw env may trusted P) {call : Call} {f : Supervisor → Result}
    (hcall : call.isBystander = true)
    (hground : s.lastKnown = .running → s.graced env.now = true ∨ trusted) (hf : P f s) :
    P (fun t => if s.lastKnown = .running then (t, .waits call) else f t) s := by
  by_cases hs : s.lastKnown = .running
  · exact h.comesTo (h.pauses s call hcall hs (hground hs)) fun _ => if_pos hs
  · exact h.comesTo hf fun _ => if_neg hs

/-- A plan goes on over all services that need no wait. The induction is on the
    rest of the plan. -/
theorem applyPlan (h : GroundedLaw env may trusted P) (plan : List Toggle) (failures : Failures) :
    P (Supervisor.applyPlan env plan failures) s := by
  induction plan generalizing failures with
  | nil =>
      exact h.comesTo (h.finishes s (.applied failures) Outcome.noConfusion) fun _ => rfl
  | cons toggle rest ih =>
      exact h.settleThen (fun hstart => absurd hstart Bool.false_ne_true)
        fun _ hground => h.command rfl hground (ih _)

/-- A toggle is the end of an errand, or the rest of the plan follows. -/
theorem afterToggle (h : GroundedLaw env may trusted P) (errand : Errand)
    (result : Except RuntimeError Unit) : P (Supervisor.afterToggle env errand result) s := by
  cases errand with
  | single toggle =>
      exact h.comesTo (h.finishes s (.acknowledged result) Outcome.noConfusion) fun _ => rfl
  | plan toggle rest failures =>
      cases result with
      | ok => exact h.applyPlan rest failures
      | error e => exact h.applyPlan rest _

/-- Whatever a call was made for, it goes on with a settled status as the law
    says. This brings the six goals together. -/
theorem proceed (h : GroundedLaw env may trusted P) (goal : Goal)
    (hgoal : goal.isStart = true → may = true)
    (hground : s.lastKnown = .running → s.graced env.now = true ∨ trusted) :
    P (Supervisor.proceed env goal s.lastKnown) s := by
  cases goal with
  | start => exact h.startAt (hgoal rfl) hground
  | stop after => exact h.stopAt after hground
  | compile source => exact h.compileAt source _
  | execTime => exact h.command rfl hground (h.finishes s _ Outcome.noConfusion)
  | runtimeLogs => exact h.command rfl hground (h.finishes s _ Outcome.noConfusion)
  | toggle errand => exact h.command rfl hground (h.afterToggle errand _)

/-- Settling the status first gives the ground on which a goal is gone on with. -/
theorem pursue (h : GroundedLaw env may trusted P) (goal : Goal)
    (hgoal : goal.isStart = true → may = true) : P (Supervisor.pursue env goal) s :=
  h.settleThen hgoal fun _ => h.proceed goal hgoal

/-- It holds of every turn that goes on with the status that is known, if it
    trusts that the engine runs where it is known to. -/
theorem resume (h : GroundedLaw env may trusted P) (goal : Goal)
    (hgoal : goal.isStart = true → may = true) (htrusted : s.lastKnown = .running → trusted) :
    P (fun s => s.resume env goal s.lastKnown) s := by
  by_cases hk : s.lastKnown = .unknown
  · refine h.comesTo (h.pursue goal hgoal) fun j => ?_
    rw [lastKnown_on, resume_eq, if_pos hk]
  · refine h.comesTo (h.proceed goal hgoal fun hk => .inr (htrusted hk)) fun j => ?_
    rw [lastKnown_on, resume_eq, if_neg hk]

/-- Shutting down announces itself before anything else, and then stops the
    engine or leaves. -/
theorem shutDown (h : GroundedLaw env may trusted P) : P (Supervisor.shutDown env) s := by
  have hstop := h.announces s (Supervisor.stopThen env .shutdown) (h.stopThen .shutdown)
  have hcancel := h.announces s Supervisor.cancel h.cancel
  have hknown : ∀ j, ((s.on j).publish { kind := .shutdownRequested }).lastKnown = s.lastKnown :=
    fun _ => rfl
  cases hk : s.lastKnown with
  | running => exact h.comesTo hstop fun j => by rw [Supervisor.shutDown, hknown, hk]
  | unknown => exact h.comesTo hstop fun j => by rw [Supervisor.shutDown, hknown, hk]
  | stopped => exact h.comesTo hcancel fun j => by rw [Supervisor.shutDown, hknown, hk]
  | compiling => exact h.comesTo hcancel fun j => by rw [Supervisor.shutDown, hknown, hk]

/-- A question for the status sends a probe or is answered at once. -/
theorem question (h : GroundedLaw env may trusted P) : P (Supervisor.enter env .status) s := by
  rcases check_cases s env.now with ⟨launch, hb, hk, hg, hcheck⟩ | ⟨_, hcheck⟩
  · have hprobes := h.probes s .asking launch hb hk hg rfl
      fun hstart => absurd hstart Bool.false_ne_true
    refine h.comesTo hprobes fun j => ?_
    rw [Supervisor.enter, check_on, hcheck]
    rfl
  · refine h.comesTo (h.finishes s (.status s.lastKnown) Outcome.noConfusion) fun j => ?_
    rw [Supervisor.enter, check_on, hcheck]

/-- It holds of the first turn of every request. -/
theorem enter (h : GroundedLaw env may trusted P) (request : Request)
    (hrequest : (request == .start) = true → may = true) :
    P (Supervisor.enter env request) s := by
  have hnot : ∀ {goal : Goal}, goal.isStart = false → goal.isStart = true → may = true :=
    fun hno hyes => absurd (hno.symm.trans hyes) Bool.false_ne_true
  cases request with
  | status => exact h.question
  | start => exact h.pursue .start fun _ => hrequest rfl
  | stop => exact h.pursue (.stop .answer) (hnot rfl)
  | compile source => exact h.pursue (.compile source) (hnot rfl)
  | execTime => exact h.pursue .execTime (hnot rfl)
  | runtimeLogs => exact h.pursue .runtimeLogs (hnot rfl)
  | toggle toggle => exact h.pursue (.toggle (.single toggle)) (hnot rfl)
  | applyServices settings => exact h.applyPlan _ []
  | shutdown => exact h.shutDown

end GroundedLaw

/-- Something that holds of every part that a turn can be made of. The engine
    is launched only if it may be. -/
structure TurnLaw (env : Surroundings) (may : Bool)
    (P : (Supervisor → Result) → Supervisor → Prop) : Prop where
  comesTo : ∀ {f g s}, P g s → (∀ j, f (s.on j) = g (s.on j)) → P f s
  finishes : ∀ s outcome, P (fun s => (s, .finished outcome)) s
  pauses : ∀ s call, call.isBystander = true → P (fun s => (s, .waits call)) s
  probes : ∀ s call launch, s.belief = .running launch → call.isProbe = true →
    (call.starts = true → may = true) →
    P (fun s => ({ s with belief := .probing launch }, .waits call)) s
  joins : ∀ s goal, s.lastKnown = .unknown → (goal.isStart = true → may = true) →
    P (fun s => (s, .waits (.waiting goal false))) s
  quits : ∀ s after, s.lastKnown = .running → P (fun s => (s, .waits (.quitting after))) s
  launches : ∀ s, s.lastKnown = .stopped → may = true → P (Supervisor.launch env) s
  /-- A compilation is admitted where none is under way, or may be replaced. -/
  compiles : ∀ s source, ¬ (s.isCompiling && s.config.admission == .reject) = true →
    P (Supervisor.compileNow env source) s
  closes : ∀ s, s.cancelled = false →
    P (fun s => ({ s with cancelled := true }, .waits .closing)) s
  announces : ∀ s f, P f (s.publish { kind := .shutdownRequested }) →
    P (fun s => f (s.publish { kind := .shutdownRequested })) s

namespace TurnLaw

variable {may : Bool} {P : (Supervisor → Result) → Supervisor → Prop}

/-- What holds of the parts holds of them whatever the ground. -/
theorem grounded (h : TurnLaw env may P) : GroundedLaw env may True P where
  comesTo := h.comesTo
  finishes := fun s outcome _ => h.finishes s outcome
  confirms := fun s _ _ => h.finishes s _
  pauses := fun s call hcall _ _ => h.pauses s call hcall
  probes := fun s call launch hb _ _ => h.probes s call launch hb
  joins := h.joins
  quits := fun s after hk _ => h.quits s after hk
  launches := h.launches
  compiles := h.compiles
  closes := h.closes
  announces := h.announces

/-- It holds of every turn that goes on with the status that is known. -/
theorem resume (h : TurnLaw env may P) (goal : Goal)
    (hgoal : goal.isStart = true → may = true) :
    P (fun s => s.resume env goal s.lastKnown) s :=
  h.grounded.resume goal hgoal fun _ => trivial

/-- It holds of the first turn of every request. -/
theorem enter (h : TurnLaw env may P) (request : Request)
    (hrequest : (request == .start) = true → may = true) :
    P (Supervisor.enter env request) s :=
  h.grounded.enter request hrequest

end TurnLaw

end Supervisor

end SoftPlc
