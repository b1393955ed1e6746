import SoftPlc.Proofs.Supervisor.Watch

/-!
# What a call is for

A call waits in many places between the request that made it and its outcome.
Where it waits says what it was made for, although two different requests may
stop the engine on their way: what is to happen after the engine was asked to
quit is part of the call. So a call has a purpose, its turns keep it, and it
comes to an outcome of the kind that the purpose asks for.

This is shown along the operations and not as a law of turns, because the
parts that turns are made of do not know whose they are. What it gives is
that a call which is found waiting can be told from all calls made for
something else, in any state, without looking at how it came there.

An observer who writes down the request of each call as it is made can rely on
that: whatever a call waits for, it is what was written down for it.

## Main definitions

* `Purpose`: What a call was made for.
* `Goal.purpose`, `Call.purpose`: What a call that waits was made for.
* `Turn.Serves`: A turn ends as the purpose asks for.
* `Action.recorded`: The requests that calls were made with.

## Theorems

* `serves_enter`, `serves_resume`, `serves_carryOn`: Turns keep the purpose of
  their call.
* `Steps.purpose`: So does every step, for every call.
* `Steps.recorded`, `Steps.made`: A record of requests is a record of purposes.
-/

namespace SoftPlc

/-- What a call was made for. -/
inductive Purpose where
  | status
  | start
  | stop
  | compile (source : List UInt8)
  | execTime
  | runtimeLogs
  /-- One service is toggled, or several. -/
  | toggle
  | shutdown
  deriving DecidableEq, Repr

/-- What a request is made for. -/
def Request.purpose : Request → Purpose
  | status => .status
  | start => .start
  | stop => .stop
  | compile source => .compile source
  | execTime => .execTime
  | runtimeLogs => .runtimeLogs
  | toggle _ => .toggle
  | applyServices _ => .toggle
  | shutdown => .shutdown

/-- What the engine is stopped for. -/
def AfterStop.purpose : AfterStop → Purpose
  | answer => .stop
  | compile source => .compile source
  | shutdown => .shutdown

/-- What a call was made for that settles the status for a goal. -/
def Goal.purpose : Goal → Purpose
  | start => .start
  | stop after => after.purpose
  | compile source => .compile source
  | execTime => .execTime
  | runtimeLogs => .runtimeLogs
  | toggle _ => .toggle

/-- What a call was made for that waits. -/
def Call.purpose : Call → Purpose
  | asking => .status
  | probing goal => goal.purpose
  | waiting goal _ => goal.purpose
  | quitting after => after.purpose
  | readingTime => .execTime
  | readingLogs => .runtimeLogs
  | toggling _ => .toggle
  | closing => .shutdown

/-- The outcome is of the kind that is asked for. -/
def Outcome.serves : Outcome → Purpose → Bool
  | status _, .status => true
  | started _, .start => true
  | acknowledged _, .stop => true
  | acknowledged _, .compile _ => true
  | acknowledged _, .toggle => true
  | text _, .execTime => true
  | text _, .runtimeLogs => true
  | applied _, .toggle => true
  | shutDown, .shutdown => true
  | _, _ => false

/-- The turn ends in a wait for the same purpose, or in an outcome that it asks
    for. -/
def Turn.Serves : Turn → Purpose → Prop
  | finished outcome, purpose => outcome.serves purpose = true
  | waits call, purpose => call.purpose = purpose

/-- A signal does not change what a call is for. -/
theorem Call.purpose_signal (call : Call) : call.signal.purpose = call.purpose := by
  cases call <;> rfl

namespace Supervisor

variable {s : Supervisor} {env : Surroundings}

theorem serves_settleThen {now : Nat} (goal : Goal) {go : RuntimeStatus → Supervisor → Result}
    (hgo : ∀ status t, (go status t).2.Serves goal.purpose) :
    (s.settleThen now goal go).2.Serves goal.purpose := by
  unfold settleThen
  split
  next => rfl
  next => rfl
  next => exact hgo _ _

theorem serves_startAt (status : RuntimeStatus) : (s.startAt env status).2.Serves .start := by
  unfold startAt
  split
  next =>
    unfold launch
    split
    next => rfl
    next => rfl
  next => rfl
  next => rfl

theorem serves_compileNow (source : List UInt8) :
    (s.compileNow env source).2.Serves (.compile source) := by
  unfold compileNow
  split
  next => rfl
  next =>
    dsimp only
    split
    next => rfl
    next => rfl

theorem serves_cancel : s.cancel.2.Serves .shutdown := by
  unfold cancel
  split
  next => rfl
  next => rfl

theorem serves_afterStop (after : AfterStop) (result : Except RuntimeError Unit) :
    (s.afterStop env after result).2.Serves after.purpose := by
  cases after with
  | answer => rfl
  | compile source => exact serves_compileNow source
  | shutdown => exact serves_cancel

theorem serves_stopAt (after : AfterStop) (status : RuntimeStatus) :
    (s.stopAt env after status).2.Serves after.purpose := by
  cases status with
  | running => rfl
  | _ => exact serves_afterStop after _

theorem serves_stopThen (after : AfterStop) : (s.stopThen env after).2.Serves after.purpose :=
  serves_settleThen (.stop after) fun status _ => serves_stopAt after status

theorem serves_compileAt (source : List UInt8) (status : RuntimeStatus) :
    (s.compileAt env source status).2.Serves (.compile source) := by
  cases status with
  | compiling =>
      unfold compileAt
      dsimp only
      split
      next => rfl
      next => exact serves_compileNow source
  | running => exact serves_stopThen (.compile source)
  | stopped => exact serves_compileNow source
  | unknown => exact serves_compileNow source

/-- Commands are for a running engine. -/
theorem serves_command {purpose : Purpose} {call : Call} {status : RuntimeStatus} {r : Result}
    (hcall : call.purpose = purpose) (hr : r.2.Serves purpose) :
    (if status = .running then (s, .waits call) else r).2.Serves purpose := by
  by_cases hstatus : status = .running
  · rw [if_pos hstatus]
    exact hcall
  · rw [if_neg hstatus]
    exact hr

theorem serves_applyPlan (plan : List Toggle) (failures : Failures) :
    (s.applyPlan env plan failures).2.Serves .toggle := by
  induction plan generalizing failures s with
  | nil => rfl
  | cons toggle rest ih =>
      exact serves_settleThen (.toggle (.plan toggle rest failures)) fun _ _ =>
        serves_command rfl (ih _)

theorem serves_afterToggle (errand : Errand) (result : Except RuntimeError Unit) :
    (s.afterToggle env errand result).2.Serves .toggle := by
  cases errand with
  | single toggle => rfl
  | plan toggle rest failures =>
      cases result with
      | ok => exact serves_applyPlan rest failures
      | error e => exact serves_applyPlan rest _

theorem serves_proceed (goal : Goal) (status : RuntimeStatus) :
    (s.proceed env goal status).2.Serves goal.purpose := by
  cases goal with
  | start => exact serves_startAt status
  | stop after => exact serves_stopAt after status
  | compile source => exact serves_compileAt source status
  | execTime => exact serves_command rfl rfl
  | runtimeLogs => exact serves_command rfl rfl
  | toggle errand => exact serves_command rfl (serves_afterToggle errand _)

theorem serves_pursue (goal : Goal) : (s.pursue env goal).2.Serves goal.purpose :=
  serves_settleThen goal fun status _ => serves_proceed goal status

/-- A turn that goes on with a status keeps the purpose of its goal. -/
theorem serves_resume (goal : Goal) (status : RuntimeStatus) :
    (s.resume env goal status).2.Serves goal.purpose := by
  unfold resume
  split
  next => exact serves_pursue goal
  next => exact serves_proceed goal _

theorem serves_shutDown : (s.shutDown env).2.Serves .shutdown := by
  unfold shutDown
  dsimp only
  split
  next => exact serves_stopThen .shutdown
  next => exact serves_stopThen .shutdown
  next => exact serves_cancel

/-- The first turn of a call serves what the call is made for. -/
theorem serves_enter (request : Request) : (s.enter env request).2.Serves request.purpose := by
  cases request with
  | status =>
      unfold enter
      dsimp only
      split
      next => rfl
      next => rfl
  | start => exact serves_pursue .start
  | stop => exact serves_pursue (.stop .answer)
  | compile source => exact serves_pursue (.compile source)
  | execTime => exact serves_pursue .execTime
  | runtimeLogs => exact serves_pursue .runtimeLogs
  | toggle toggle => exact serves_pursue (.toggle (.single toggle))
  | applyServices settings => exact serves_applyPlan _ []
  | shutdown => exact serves_shutDown

/-- A turn after a reply serves what the call was made for. -/
theorem serves_carryOn (call : Call) (reply : Except ControlError String) :
    (s.carryOn env call reply).2.Serves call.purpose := by
  cases call with
  | asking => rfl
  | probing goal => exact serves_resume goal _
  | waiting goal signalled => rfl
  | quitting after => exact serves_afterStop after _
  | readingTime => rfl
  | readingLogs => rfl
  | toggling errand => exact serves_afterToggle errand _
  | closing => rfl

/-- A turn that does not make its call finds it waiting for its purpose. -/
theorem purpose_of_call? {action : Action} {id : Nat} {request : Request} {purpose : Purpose}
    {call : Call} (hcall : s.call? id = some call)
    (hpurpose : action = .begin id request ∨
      ∃ there, s.call? id = some there ∧ there.purpose = purpose)
    (hmade : action ≠ .begin id request) : call.purpose = purpose := by
  rcases hpurpose with heq | ⟨there, hthere, hpurpose⟩
  · exact absurd heq hmade
  · cases Option.some.inj (hcall.symm.trans hthere)
    exact hpurpose

/-- The opening of a turn ends at most the wait of its own call. -/
theorem Opens.purpose {t : Supervisor} {id k : Nat} {there : Call} (h : s.Opens id t)
    (hcall : t.call? k = some there) :
    ∃ call, s.call? k = some call ∧ there.purpose = call.purpose := by
  cases h with
  | fresh => exact ⟨there, hcall, rfl⟩
  | completes call c hown =>
      have hbefore : ∀ {other}, (s.without id).call? k = some other → s.call? k = some other := by
        intro other hother
        rw [call?_without] at hother
        split at hother
        next => exact absurd hother (by simp only [reduceCtorEq, not_false_eq_true])
        next => exact hother
      cases hprobe : call.isProbe with
      | true =>
          rw [call?_complete_probe hprobe] at hcall
          rcases Option.map_eq_some_iff.mp hcall with ⟨other, hother, rfl⟩
          exact ⟨other, hbefore hother, Call.purpose_signal other⟩
      | false =>
          rw [call?_complete_other hprobe] at hcall
          exact ⟨there, hbefore hcall, rfl⟩

/-- A turn that has advanced has left its own call for its purpose, and all
    others alone. -/
theorem Advance.purpose {r : Result} {purpose : Purpose} (h : Advance s r) {id k : Nat}
    {there : Call} (hserves : r.2.Serves purpose)
    (hcall : (endTurn id r).1.call? k = some there) :
    (k = id ∧ there.purpose = purpose) ∨ s.call? k = some there := by
  rw [h.call?] at hcall
  by_cases hk : k = id
  · rw [if_pos hk] at hcall
    rcases r with ⟨u, outcome | call⟩
    · exact absurd hcall (by simp only [Turn.call?, reduceCtorEq, not_false_eq_true])
    · exact .inl ⟨hk, Option.some.inj hcall ▸ hserves⟩
  · rw [if_neg hk] at hcall
    exact .inr hcall

/-- A call that waits after a step was made in that step, or has waited before
    for the same purpose. -/
theorem Steps.purpose {action : Action} {r : Supervisor × Option Outcome}
    (h : Steps env s action r) {k : Nat} {there : Call} (hcall : r.1.call? k = some there) :
    (∃ request, action = .begin k request ∧ there.purpose = request.purpose) ∨
      ∃ call, s.call? k = some call ∧ there.purpose = call.purpose := by
  have haside : r.1.calls = s.calls →
      ∃ call, s.call? k = some call ∧ there.purpose = call.purpose :=
    fun hsame => ⟨there, (call?_congr hsame k).symm.trans hcall, rfl⟩
  cases h with
  | begins id request hnone =>
      rcases (advance_enter request).purpose (serves_enter request) hcall with ⟨rfl, hp⟩ | hbefore
      · exact .inl ⟨request, rfl, hp⟩
      · exact .inr ⟨there, hbefore, rfl⟩
  | replies id reply call hown hex =>
      rcases (advance_carryOn hex reply).purpose (serves_carryOn call reply) hcall
        with ⟨rfl, hp⟩ | hbefore
      · exact .inr ⟨call, hown, hp⟩
      · exact .inr ((Opens.completes call (.replied reply) hown).purpose hbefore)
  | wakes id goal hown =>
      rcases (advance_resume goal).purpose (serves_resume goal _) hcall with ⟨rfl, hp⟩ | hbefore
      · exact .inr ⟨_, hown, hp⟩
      · exact .inr ((Opens.completes (.waiting goal true) .dropped hown).purpose hbefore)
  | abandons id call hown => exact .inr ((Opens.completes call .dropped hown).purpose hcall)
  | closes id hown => exact .inr ((Opens.completes .closing .dropped hown).purpose hcall)
  | takes => exact .inr (haside rfl)
  | writes => exact .inr (haside rfl)
  | compilerExits => exact .inr (haside rfl)
  | engineExits => exact .inr (haside rfl)

end Supervisor

/-- The requests that calls were made with, by their numbers, after an action. -/
def Action.recorded (requests : Nat → Option Request) : Action → Nat → Option Request
  | begin id request => fun k => if k = id then some request else requests k
  | _ => requests

namespace Supervisor

variable {s : Supervisor} {env : Surroundings} {action : Action}
  {r : Supervisor × Option Outcome} {requests : Nat → Option Request} {id : Nat}

/-- Each call that waits is recorded with a request, and waits for what that was
    made for. -/
def Recorded (s : Supervisor) (requests : Nat → Option Request) : Prop :=
  ∀ id call, s.call? id = some call →
    ∃ request, requests id = some request ∧ call.purpose = request.purpose

/-- A record that is kept up from step to step stays true of all calls. -/
theorem Steps.recorded (h : Steps env s action r) (hs : s.Recorded requests) :
    r.1.Recorded (action.recorded requests) := by
  intro k call hcall
  rcases h.purpose hcall with ⟨request, rfl, hpurpose⟩ | ⟨before, hbefore, hpurpose⟩
  · exact ⟨request, if_pos rfl, hpurpose⟩
  · rcases hs k before hbefore with ⟨request, hrequest, hknown⟩
    refine ⟨request, ?_, hpurpose.trans hknown⟩
    -- A call that waited before cannot be the one that begins.
    cases h with
    | begins id there hnone =>
        -- The call that is made has not waited before.
        have hother : k ≠ id := by
          rintro rfl
          exact absurd (hbefore.symm.trans hnone) (Option.some_ne_none before)
        exact (if_neg hother).trans hrequest
    | _ => exact hrequest

/-- The call whose turn an action is was made with the request that is recorded,
    or waits for what that was made for. -/
theorem Steps.made (h : Steps env s action r) (hs : s.Recorded requests) {request : Request}
    (hcaller : action.caller? = some id) (hrequest : action.recorded requests id = some request) :
    action = .begin id request ∨
      ∃ call, s.call? id = some call ∧ call.purpose = request.purpose := by
  have hwaits : ∀ call, s.call? id = some call → requests id = some request →
      ∃ call, s.call? id = some call ∧ call.purpose = request.purpose := by
    intro call hcall hsame
    rcases hs id call hcall with ⟨there, hthere, hpurpose⟩
    cases Option.some.inj (hthere.symm.trans hsame)
    exact ⟨call, hcall, hpurpose⟩
  cases h with
  | begins k there hnone =>
      cases hcaller
      cases Option.some.inj ((if_pos rfl).symm.trans hrequest)
      exact .inl rfl
  | replies k reply call hcall => cases hcaller; exact .inr (hwaits call hcall hrequest)
  | wakes k goal hcall => cases hcaller; exact .inr (hwaits _ hcall hrequest)
  | abandons k call hcall => cases hcaller; exact .inr (hwaits call hcall hrequest)
  | closes k hcall => cases hcaller; exact .inr (hwaits _ hcall hrequest)
  | _ => exact absurd hcaller (by simp only [Action.caller?, reduceCtorEq, not_false_eq_true])

end Supervisor

end SoftPlc
