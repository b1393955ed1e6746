import SoftPlc.Proofs.Supervisor.Admission
import SoftPlc.Proofs.Supervisor.Settling

/-!
# What a failure leaves

An operation that fails after it has settled the status has changed nothing
since. Where it was refused, or a program could not be launched, it has not
said so either; where the engine did not take what it was told, exactly this is
published. So what changes the session in a call that fails is the probe that
settled the status, and that only where it has failed itself.

The ways in which these operations end are known, and the failures are some of
them: `Request.Fails` is read off the list. With several calls at a time only
the last part of `failures_leave_session` remains, which is about single steps:
a launch that is believed in is given up in two steps only, and the one of them
that is a failure is a failed probe.

## Main definitions

* `Outcome.failure?`: The error that a call has come to.
* `Request.Fails`: The ways in which operations fail, and what is published.

## Theorems

* `Settlement.Ends.fails`: A failure leaves the session as it was settled.
* `demoted_step`: The steps that end the belief in a launch.
* `failures_leave_session`: What failures leave.
-/

namespace SoftPlc

/-- The error that a call has come to, if it has come to one. -/
def Outcome.failure? : Outcome → Option RuntimeError
  | started (.error e) => some e
  | acknowledged (.error e) => some e
  | _ => none

/-- The ways in which an operation fails that has settled the status, and what
    it publishes then. -/
inductive Request.Fails : Request → RuntimeError → List Notice → Prop where
  | startBusy : Fails .start (.busy .compiling "start") []
  | spawn (program : List UInt8) (reason : Failure) : Fails .start (.spawn program reason) []
  | stopBusy : Fails .stop (.busy .compiling "stop") []
  | stopFailed (e : ControlError) :
      Fails .stop (.stopFailed e) [{ kind := .runtimeStopFailed, reason := some e.text }]
  | notRunning (toggle : Toggle) : Fails (.toggle toggle) .notRunning []
  | control (toggle : Toggle) (e : ControlError) :
      Fails (.toggle toggle) (.control e)
        [{ kind := .controlFailed, reason := some (toggle.command.wire ++ ": " ++ e.text) }]

/-- A failure leaves the session as it was settled. -/
theorem Settlement.Ends.fails {settled : Settlement} {request : Request}
    {reply : Option (Except ControlError String)} {outcome : Outcome} {more : List Notice}
    {session : Session} (h : settled.Ends request reply outcome more session) {e : RuntimeError}
    (hfails : outcome.failure? = some e) : session = settled.session ∧ request.Fails e more := by
  have hno : ∀ {e : RuntimeError}, none ≠ some e := (Option.some_ne_none _).symm
  cases h with
  | startBusy => exact ⟨rfl, Option.some.inj hfails ▸ .startBusy⟩
  | startFailed _ program reason => exact ⟨rfl, Option.some.inj hfails ▸ .spawn program reason⟩
  | stopBusy => exact ⟨rfl, Option.some.inj hfails ▸ .stopBusy⟩
  | stopFailed _ e => exact ⟨rfl, Option.some.inj hfails ▸ .stopFailed e⟩
  | untoggled _ toggle => exact ⟨rfl, Option.some.inj hfails ▸ .notRunning toggle⟩
  | toggleFailed _ toggle e => exact ⟨rfl, Option.some.inj hfails ▸ .control toggle e⟩
  | _ => exact absurd hfails hno

namespace Supervisor

variable {s : Supervisor} {env : Surroundings} {launch : Launch}

/-- A turn that goes on does not give up a launch. -/
theorem Advance.keeps {r : Result} (h : Advance s r) (hb : s.belief.launch? = some launch) :
    r.1.belief.launch? = some launch := by
  cases h with
  | probes t call there _ _ hbefore hafter =>
      rw [hbefore] at hb
      rw [hafter]
      exact hb
  | joins t goal there _ _ hbefore hafter =>
      rw [hbefore] at hb
      rw [hafter]
      exact hb
  | quits t next there _ _ hbefore hafter =>
      rw [hbefore] at hb
      rw [hafter]
      exact hb
  | launches t outcome now _ _ hbefore =>
      rw [hbefore] at hb
      exact absurd hb (by simp only [Belief.launch?, reduceCtorEq, not_false_eq_true])
  | stays t turn _ _ hsame =>
      rw [hsame]
      exact hb

/-- A completion ends the belief in a launch if it is the failure of a probe or
    the acknowledgement of an order to quit. -/
inductive Demotes : Call → Completion → Prop where
  | probe (call : Call) (hprobe : call.isProbe = true) (e : ControlError) :
      Demotes call (.replied (.error e))
  | quit (next : AfterStop) (text : String) : Demotes (.quitting next) (.replied (.ok text))

/-- No other completion does. -/
theorem demotes_of_complete {call : Call} {c : Completion} (hb : s.belief.launch? = some launch)
    (hne : (s.complete call c).belief.launch? ≠ some launch) : Demotes call c := by
  cases hprobe : call.isProbe with
  | true =>
      rw [belief_complete_probe hprobe] at hne
      rcases c with (e | text) | _
      · exact .probe call hprobe e
      · refine absurd ?_ hne
        rw [← hb]
        cases s.belief <;> rfl
      · refine absurd ?_ hne
        rw [← hb]
        cases s.belief <;> rfl
  | false =>
      rw [belief_complete_other hprobe] at hne
      split at hne
      next hack =>
        rw [Bool.and_eq_true] at hack
        rcases hack with ⟨hsettles, hack⟩
        rcases c with (e | text) | _
        · exact absurd hack Bool.false_ne_true
        · cases call with
          | asking => exact absurd hprobe.symm Bool.false_ne_true
          | probing goal => exact absurd hprobe.symm Bool.false_ne_true
          | quitting next => exact .quit next text
          | _ => exact absurd hsettles Bool.false_ne_true
        · exact absurd hack Bool.false_ne_true
      next => exact absurd hb hne

/-- A step that gives up a launch is the reply to a probe that has failed, or
    to an order to quit that is acknowledged. -/
theorem demoted_step {action : Action} {r : Supervisor × Option Outcome}
    (h : Steps env s action r) (hb : s.belief.launch? = some launch)
    (hne : r.1.belief.launch? ≠ some launch) :
    ∃ id call reply, action = .reply id reply ∧ s.call? id = some call ∧
      Demotes call (.replied reply) := by
  cases h with
  | begins id request hnone =>
      rw [endTurn_belief] at hne
      exact absurd ((advance_enter request).keeps hb) hne
  | replies id reply call hcall hex =>
      refine ⟨id, call, reply, rfl, hcall, ?_⟩
      rw [endTurn_belief] at hne
      refine demotes_of_complete (s := s.without id) hb fun hkept => hne ?_
      exact (advance_carryOn hex reply).keeps hkept
  | wakes id goal hcall =>
      rw [endTurn_belief] at hne
      exact absurd ((advance_resume goal).keeps (s := s.without id) hb) hne
  | abandons id call hcall =>
      have hdemotes : Demotes call .dropped := demotes_of_complete (s := s.without id) hb hne
      exact absurd hdemotes (by rintro ⟨⟩)
  | closes id hcall => exact absurd hb hne
  | takes => exact absurd hb hne
  | writes => exact absurd hb hne
  | compilerExits => exact absurd hb hne
  | engineExits => exact absurd hb hne

end Supervisor

/-- With one call at a time, an operation that starts or stops the engine or
    toggles a service and fails leaves the session as it was when the status
    was settled. It has published since that the engine did not take the order
    to quit or the command, if that is what has failed, and nothing otherwise. A
    compilation that is refused changes nothing at all. In any step whatever, a
    launch that is believed in is given up only when a probe has failed, or when
    the engine has acknowledged an order to quit. -/
theorem failures_leave_session :
    (∀ (config : Config) (happenings : List Happening),
      ∀ c ∈ ((Casebook.start config).after happenings).past,
      (c.request = .start ∨ c.request = .stop ∨ ∃ toggle, c.request = .toggle toggle) →
      ∀ outcome session e, c.outcome = some (outcome, session) → outcome.failure? = some e →
        ∃ settled more, c.settlement = some settled ∧ session = settled.session ∧
          c.told = settled.told ++ more ∧ c.request.Fails e more) ∧
    (∀ (env : Surroundings) (s : Supervisor) (id : Nat) (source : List UInt8),
      s.isCompiling = true → s.config.admission = .reject → s.call? id = none →
        s.step env (.begin id (.compile source))
          = some (s, some (.acknowledged (.error .compileInProgress)))) ∧
    ∀ (env : Surroundings) (s : Supervisor) (action : Action) (r : Supervisor × Option Outcome)
      (launch : Launch), s.step env action = some r → s.belief.launch? = some launch →
      r.1.belief.launch? ≠ some launch → ∃ id call reply, action = .reply id reply ∧
        s.call? id = some call ∧ Supervisor.Demotes call (.replied reply) := by
  refine ⟨fun config happenings c hc hrequest outcome session e houtcome hfails => ?_,
    fun env s id source hcompiling hreject hnone => ?_,
    fun env s action r launch hstep hb hne =>
      Supervisor.demoted_step (Supervisor.step_eq_some_iff.mp hstep) hb hne⟩
  · have hgoal : ∃ goal, c.request.goal? = some goal := by
      rcases hrequest with h | h | ⟨toggle, h⟩
      · exact ⟨_, congrArg Request.goal? h⟩
      · exact ⟨_, congrArg Request.goal? h⟩
      · exact ⟨_, congrArg Request.goal? h⟩
    rcases hgoal with ⟨goal, hgoal⟩
    -- What settled the status is kept with the call, and the failure is only about
    -- what came after.
    have hkept := Casebook.kept_after (Casebook.kept_start config) happenings
    rcases hkept.past c hc goal outcome session hgoal houtcome with
      ⟨settled, more, hsettlement, htold, hends⟩
    rcases hends.fails hfails with ⟨hsame, hway⟩
    exact ⟨settled, more, hsettlement, hsame, htold, hway⟩
  · have hrefused : s.begin env id (.compile source) = _ :=
      Supervisor.begin_refused id source hcompiling hreject
    rw [Supervisor.without_of_none hnone] at hrefused
    rw [← hrefused]
    exact if_neg (by rw [hnone]; exact Bool.false_ne_true)

/-- The engine is launched without a grace, and answers a probe, but not the
    order to quit. -/
def unansweredQuit : List Happening :=
  [.begin 0 .start, .begin 1 .stop, .reply 1 (.ok "12"),
    .reply 1 (.error (.timedOut (.named "plc") (.ofMillis 3000)))].map
    (.act ⟨0, .ok none, fun _ => .ok none⟩)

theorem failures_leave_session_stop :
    let b := (Casebook.start { startupGrace := .ofMillis 0 }).after unansweredQuit
    ∃ c ∈ b.past, c.request = .stop ∧
      (c.outcome.bind fun o => o.1.failure?)
        = some (.stopFailed (.timedOut (.named "plc") (.ofMillis 3000))) ∧
      ∃ settled more, c.settlement = some settled ∧ settled.session = ⟨.running ⟨0, 0⟩, none, {}⟩ ∧
        (c.outcome.map fun o => o.2) = some settled.session ∧ c.told = settled.told ++ more ∧
        c.request.Fails (.stopFailed (.timedOut (.named "plc") (.ofMillis 3000))) more := by
  intro b
  have hc : b.past.get ⟨1, by decide⟩ ∈ b.past := List.get_mem _ _
  rcases failures_leave_session.1 _ unansweredQuit _ hc (.inr (.inl rfl)) _ _ _ rfl rfl with
    ⟨settled, more, hsettled, hsame, htold, hfails⟩
  refine ⟨_, hc, rfl, rfl, settled, more, hsettled, ?_, congrArg some hsame, htold, hfails⟩
  rw [← hsame]
  rfl

end SoftPlc
