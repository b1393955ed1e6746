import SoftPlc.Proofs.Supervisor.Chronicle

/-!
# How operations end that have settled the status

Five operations settle the status once and then act on it: starting and
stopping the engine, the two queries, and toggling a service. What they act on
is the session as it was when the status was settled. `Settlement` is a record
of that moment, taken from the two functions that settle a status, and of what
the call had published by then.

After it such an operation is over at once, or asks the engine one thing and is
over with the reply. `Settlement.Ends` lists the ways. With one call at a time
nothing happens to the session between the settlement and the reply, because
only calls change it; so the list is about the session at the settlement and the
session at the end, with an exchange between them. With several calls this
would be false: another call may stop the engine meanwhile.

## Main definitions

* `Session`: What is believed and kept, as calls may change it.
* `Settlement`: The moment at which a status is settled.
* `Supervisor.settlement?`: The settlement that a step comes to.
* `Settlement.Ends`: How an operation ends afterwards.
* `Case`, `Casebook`: A call, and all calls that were made one at a time.

## Theorems

* `comes_proceed`: What a turn does with a status that is settled.
* `comes_pursue`: A call settles the status at once, or with a probe.
* `Case.lands_begun`, `Case.lands_probed`, `Case.lands_answered`: The three
  turns that such a call may have.
* `Casebook.kept_after`: In all runs the operations end in one of the ways.
-/

namespace SoftPlc

/-- What is believed of the engine and kept of the latest job and of the
    program at hand. -/
structure Session where
  belief : Belief
  /-- The index of the latest job. -/
  job : Option Nat
  project : Project
  deriving DecidableEq, Repr

/-- A status is settled: what it is, what there is at that moment, and what the
    call has published by then. -/
structure Settlement where
  status : RuntimeStatus
  session : Session
  told : List Notice
  deriving DecidableEq, Repr

/-- What a request wants the status for, if it settles it once. -/
def Request.goal? : Request → Option Goal
  | start => some .start
  | stop => some (.stop .answer)
  | execTime => some .execTime
  | runtimeLogs => some .runtimeLogs
  | toggle t => some (.toggle (.single t))
  | _ => none

/-- What such a request asks of an engine that is running. -/
def Request.asks? : Request → Option Call
  | stop => some (.quitting .answer)
  | execTime => some .readingTime
  | runtimeLogs => some .readingLogs
  | toggle t => some (.toggling (.single t))
  | _ => none

/-- How an operation ends that has settled the status: what came back if the
    engine was asked, the outcome, what was published since, and the session
    at the end. -/
inductive Settlement.Ends (settled : Settlement) :
    Request → Option (Except ControlError String) → Outcome → List Notice → Session → Prop where
  | startBusy (status : settled.status = .compiling) :
      Ends settled .start none (.started (.error (.busy .compiling "start"))) [] settled.session
  | startNeedless (status : settled.status = .running) :
      Ends settled .start none (.started (.ok .running)) [] settled.session
  | startFailed (status : settled.status = .stopped) (program : List UInt8) (reason : Failure) :
      Ends settled .start none (.started (.error (.spawn program reason))) [] settled.session
  | launched (status : settled.status = .stopped) (launch : Launch) (pid : Option Nat) :
      Ends settled .start none (.started (.ok .running)) [{ kind := .runtimeStarted, pid }]
        { settled.session with belief := .running launch }
  | stopBusy (status : settled.status = .compiling) :
      Ends settled .stop none (.acknowledged (.error (.busy .compiling "stop"))) []
        settled.session
  | stopNeedless (status : settled.status = .stopped) :
      Ends settled .stop none (.acknowledged (.ok ())) [] settled.session
  | stopFailed (status : settled.status = .running) (e : ControlError) :
      Ends settled .stop (some (.error e)) (.acknowledged (.error (.stopFailed e)))
        [{ kind := .runtimeStopFailed, reason := some e.text }] settled.session
  | stopped (status : settled.status = .running) (text : String) :
      Ends settled .stop (some (.ok text)) (.acknowledged (.ok ())) [{ kind := .runtimeStopped }]
        { settled.session with belief := .stopped }
  | untoggled (status : settled.status ≠ .running) (toggle : Toggle) :
      Ends settled (.toggle toggle) none (.acknowledged (.error .notRunning)) [] settled.session
  | toggleFailed (status : settled.status = .running) (toggle : Toggle) (e : ControlError) :
      Ends settled (.toggle toggle) (some (.error e)) (.acknowledged (.error (.control e)))
        [{ kind := .controlFailed, reason := some (toggle.command.wire ++ ": " ++ e.text) }]
        settled.session
  | toggled (status : settled.status = .running) (toggle : Toggle) (text : String) :
      Ends settled (.toggle toggle) (some (.ok text)) (.acknowledged (.ok ()))
        [Supervisor.toggleNotice toggle] settled.session
  | noUptime (status : settled.status ≠ .running) :
      Ends settled .execTime none (.text RuntimeStatus.notAvailableText) [] settled.session
  | uptime (status : settled.status = .running) (reply : Except ControlError String) :
      Ends settled .execTime (some reply) (.text (Supervisor.uptimeText reply)) []
        settled.session
  | noLogs (status : settled.status ≠ .running) :
      Ends settled .runtimeLogs none (.text RuntimeStatus.notRunningText) [] settled.session
  | logs (status : settled.status = .running) (reply : Except ControlError String) :
      Ends settled .runtimeLogs (some reply) (.text (Supervisor.logsText reply)) []
        settled.session

namespace Supervisor

variable {s : Supervisor} {env : Surroundings} {request : Request} {goal : Goal}

/-- What is believed and kept. -/
def session (s : Supervisor) : Session :=
  ⟨s.belief, s.current, s.project⟩

/-- The settlement of a question for the status that is answered at once. -/
def settledAt (s : Supervisor) (now : Nat) : Option Settlement :=
  match s.check now with
  | (t, .known status) => if status = .unknown then none else some ⟨status, t.session, []⟩
  | (_, .probe) => none

/-- The settlement that the reply to a probe comes to. -/
def settledBy (s : Supervisor) (reply : Except ControlError String) : Option Settlement :=
  let (t, status) := (s.on .blank).settleProbe reply
  if status = .unknown then none else some ⟨status, t.session, t.journal.notices⟩

/-- The settlement that a step of a call comes to, if it comes to one. -/
def settlement? (s : Supervisor) (env : Surroundings) : Action → Option Settlement
  | .begin _ request => if request.goal?.isSome then s.settledAt env.now else none
  | .reply id reply =>
    match s.call? id with
    | some (.probing _) => s.settledBy reply
    | _ => none
  | _ => none

/-- What the engine answers a call, but for the answer to a probe. -/
def answer? (s : Supervisor) : Action → Option (Except ControlError String)
  | .reply id reply =>
    match s.call? id with
    | some call => if call.isProbe then none else some reply
    | none => none
  | _ => none

/-- With a settled status a turn ends the operation, or asks the engine. -/
inductive Comes (request : Request) (settled : Settlement) (f : Supervisor → Result)
    (s : Supervisor) : Prop where
  | ends (u : Supervisor) (outcome : Outcome) (more : List Notice)
      (hon : ∀ j, f (s.on j) = (u.on (j.publishAll more), .finished outcome))
      (hends : settled.Ends request none outcome more u.session)
  | asks (call : Call) (hcall : request.asks? = some call) (hrunning : settled.status = .running)
      (hon : ∀ j, f (s.on j) = (s.on j, .waits call))

/-- What a turn comes to does not depend on how the turn is written. -/
theorem Comes.of_eq {settled : Settlement} {f g : Supervisor → Result}
    (h : Comes request settled g s) (heq : ∀ j, f (s.on j) = g (s.on j)) :
    Comes request settled f s := by
  cases h with
  | ends u outcome more hon hends =>
      exact .ends u outcome more (fun j => (heq j).trans (hon j)) hends
  | asks call hcall hrunning hon => exact .asks call hcall hrunning fun j => (heq j).trans (hon j)

theorem comes_start (told : List Notice) (hk : s.lastKnown ≠ .unknown) :
    Comes .start ⟨s.lastKnown, s.session, told⟩ (startAt env s.lastKnown) s := by
  cases hknown : s.lastKnown with
  | unknown => exact absurd hknown hk
  | running => exact .ends s _ [] (fun _ => rfl) (.startNeedless rfl)
  | compiling => exact .ends s _ [] (fun _ => rfl) (.startBusy rfl)
  | stopped =>
      have hlaunch : ∀ j, startAt env .stopped (s.on j) = (s.on j).launch env := by
        intro j
        unfold startAt
        rw [lastKnown_on, hknown]
      rcases hl : env.launchEngine with reason | pid
      · refine .ends s _ [] (fun j => ?_) (.startFailed rfl s.config.engine.program reason)
        rw [hlaunch, launch, hl]
        rfl
      · refine .ends { s with
          belief := .running ⟨s.engines.length, env.now⟩
          engines := s.engines ++ [EngineProcess.mk pid false] } _ _ (fun j => ?_)
          (.launched rfl ⟨s.engines.length, env.now⟩ pid)
        rw [hlaunch, launch, hl]
        rfl

/-- What a turn does with a status that is settled. -/
theorem comes_proceed (hgoal : request.goal? = some goal) (told : List Notice)
    (hk : s.lastKnown ≠ .unknown) :
    Comes request ⟨s.lastKnown, s.session, told⟩ (proceed env goal s.lastKnown) s := by
  cases request with
  | start =>
      cases Option.some.inj hgoal
      exact comes_start told hk
  | stop =>
      cases Option.some.inj hgoal
      cases hknown : s.lastKnown with
      | unknown => exact absurd hknown hk
      | running => exact .asks _ rfl rfl fun _ => rfl
      | compiling => exact .ends s _ [] (fun _ => rfl) (.stopBusy rfl)
      | stopped => exact .ends s _ [] (fun _ => rfl) (.stopNeedless rfl)
  | execTime =>
      cases Option.some.inj hgoal
      by_cases hrunning : s.lastKnown = .running
      · exact .asks _ rfl hrunning fun _ => if_pos hrunning
      · exact .ends s _ [] (fun _ => if_neg hrunning) (.noUptime hrunning)
  | runtimeLogs =>
      cases Option.some.inj hgoal
      by_cases hrunning : s.lastKnown = .running
      · exact .asks _ rfl hrunning fun _ => if_pos hrunning
      · exact .ends s _ [] (fun _ => if_neg hrunning) (.noLogs hrunning)
  | toggle toggle =>
      cases Option.some.inj hgoal
      by_cases hrunning : s.lastKnown = .running
      · exact .asks _ rfl hrunning fun _ => if_pos hrunning
      · exact .ends s _ [] (fun _ => if_neg hrunning) (.untoggled hrunning toggle)
  | _ => exact absurd hgoal.symm (Option.some_ne_none goal)

theorem enter_of_goal (hgoal : request.goal? = some goal) (s : Supervisor) :
    s.enter env request = s.pursue env goal := by
  cases request with
  | start => exact Option.some.inj hgoal ▸ rfl
  | stop => exact Option.some.inj hgoal ▸ rfl
  | execTime => exact Option.some.inj hgoal ▸ rfl
  | runtimeLogs => exact Option.some.inj hgoal ▸ rfl
  | toggle t => exact Option.some.inj hgoal ▸ rfl
  | _ => exact absurd hgoal.symm (Option.some_ne_none goal)

/-- A call that wants the status notes a probe and waits for it, where no
    settlement has come about, or goes on with the settlement that there is.
    Nobody else probes. -/
theorem comes_pursue (hgoal : request.goal? = some goal)
    (hsettled : ∀ launch, s.belief ≠ .probing launch) :
    (s.settledAt env.now = none ∧ ∃ t : Supervisor, ∀ j,
        (s.on j).pursue env goal = (t.on j, .waits (.probing goal))) ∨
      ∃ settled, s.settledAt env.now = some settled ∧ settled.told = [] ∧
        settled.session = s.session ∧ Comes request settled (pursue env goal) s := by
  have hk : s.lastKnown ≠ .unknown := lastKnown_ne_unknown hsettled
  rcases check_cases s env.now with ⟨launch, _, _, _, hcheck⟩ | ⟨_, hcheck⟩
  · refine .inl ⟨by rw [settledAt, hcheck], { s with belief := .probing launch }, fun j => ?_⟩
    rw [pursue, settleThen, check_on, hcheck]
  · have hproceed : Comes request ⟨s.lastKnown, s.session, []⟩ (proceed env goal s.lastKnown) s :=
      comes_proceed hgoal [] hk
    refine .inr ⟨⟨s.lastKnown, s.session, []⟩, ?_, rfl, rfl, hproceed.of_eq fun j => ?_⟩
    · rw [settledAt, hcheck]
      exact if_neg hk
    · rw [pursue, settleThen, check_on, hcheck]
      dsimp only
      split
      next heq => exact absurd heq (by simp)
      next heq => exact absurd (Check.known.inj (Prod.mk.inj heq).2) hk
      next heq =>
        rcases Prod.mk.inj heq with ⟨rfl, hstatus⟩
        rw [← Check.known.inj hstatus]

/-- The reply to a probe is a settlement of what there is when the call goes
    on. -/
theorem settledBy_eq (id : Nat) (goal : Goal) (reply : Except ControlError String) :
    s.settledBy reply = some
      ⟨((s.without id).complete (.probing goal) (.replied reply)).lastKnown,
        ((s.without id).complete (.probing goal) (.replied reply)).session,
        (s.without id).announces (.probing goal) (.replied reply)⟩ := by
  have hprobe : (Call.probing goal).isProbe = true := rfl
  have hcomplete := complete_probe (s := s.without id) hprobe (.replied reply)
  have hk : ((s.without id).complete (.probing goal) (.replied reply)).lastKnown ≠ .unknown :=
    lastKnown_ne_unknown (complete_probe_ne_probing hprobe (.replied reply))
  rw [hcomplete] at hk ⊢
  have hsettle : (s.on .blank).settleProbe reply = _ := settleProbe_eq _ _
  rw [settledBy, hsettle, settleProbe_state]
  dsimp only
  refine (if_neg hk).trans ?_
  rw [on, Journal.notices_blank]
  rfl

/-- What is asked is no probe, and is answered. -/
theorem exchange_of_asks {call : Call} (hcall : request.asks? = some call) :
    call.isProbe = false ∧ call.exchange?.isSome = true := by
  cases request with
  | stop => exact Option.some.inj hcall ▸ ⟨rfl, rfl⟩
  | execTime => exact Option.some.inj hcall ▸ ⟨rfl, rfl⟩
  | runtimeLogs => exact Option.some.inj hcall ▸ ⟨rfl, rfl⟩
  | toggle t => exact Option.some.inj hcall ▸ ⟨rfl, rfl⟩
  | _ => exact absurd hcall.symm (Option.some_ne_none call)

/-- With the reply to what was asked of the engine the operation is over. -/
theorem ends_reply {call : Call} (hcall : request.asks? = some call) {settled : Settlement}
    (hrunning : settled.status = .running) (hsession : settled.session = s.session)
    (reply : Except ControlError String) :
    ∃ outcome, (∀ j, ((s.complete call (.replied reply)).on j).carryOn env call reply
        = ((s.complete call (.replied reply)).on j, .finished outcome)) ∧
      settled.Ends request (some reply) outcome (s.announces call (.replied reply))
        (s.complete call (.replied reply)).session := by
  have hkept : (s.complete call (.replied reply)).session
      = if call.settles && (Completion.replied reply).isAck then
          { settled.session with belief := .stopped }
        else settled.session := by
    rw [complete_other (exchange_of_asks hcall).1, hsession]
    split
    next => rfl
    next => rfl
  rw [hkept]
  cases request with
  | stop =>
      cases Option.some.inj hcall
      cases reply with
      | ok text => exact ⟨_, fun _ => rfl, .stopped hrunning text⟩
      | error e => exact ⟨_, fun _ => rfl, .stopFailed hrunning e⟩
  | execTime =>
      cases Option.some.inj hcall
      exact ⟨_, fun _ => rfl, .uptime hrunning reply⟩
  | runtimeLogs =>
      cases Option.some.inj hcall
      exact ⟨_, fun _ => rfl, .logs hrunning reply⟩
  | toggle t =>
      cases Option.some.inj hcall
      cases reply with
      | ok text => exact ⟨_, fun _ => rfl, .toggled hrunning t text⟩
      | error e => exact ⟨_, fun _ => rfl, .toggleFailed hrunning t e⟩
  | _ => exact absurd hcall.symm (Option.some_ne_none call)

end Supervisor

/-- It is a call, and nothing that goes on besides. -/
def Happening.isCall : Happening → Bool
  | act _ (.begin _ _) => true
  | setProject _ => true
  | _ => false

/-- A call, with its settlement. -/
structure Case where
  request : Request
  /-- Where the status was settled; nothing before. -/
  settlement : Option Settlement := none
  /-- What was published in its turns. -/
  told : List Notice := []
  /-- What the engine has answered, but for the answer to a probe. -/
  reply : Option (Except ControlError String) := none
  /-- What it has come to, and the session then; nothing while it lasts, and if
      it was given up. -/
  outcome : Option (Outcome × Session) := none

namespace Case

/-- A turn of the call, which may settle the status. -/
def takes (c : Case) (s : Supervisor) (env : Surroundings) (action : Action) : Case :=
  { c with
    settlement := c.settlement.or ((s.settlement? env action).map fun settled =>
      { settled with told := c.told ++ settled.told })
    told := c.told ++ s.told (.act env action)
    reply := c.reply.or (s.answer? action) }

/-- The operation has settled the status and has ended in one of the ways. -/
def Closed (c : Case) : Prop :=
  ∀ goal outcome session, c.request.goal? = some goal → c.outcome = some (outcome, session) →
    ∃ settled more, c.settlement = some settled ∧ c.told = settled.told ++ more ∧
      settled.Ends c.request c.reply outcome more session

/-- Where the call waits: for its own probe, with nothing settled, or for what
    it has asked, with the session as it was settled. -/
inductive Awaits (c : Case) (session : Session) (goal : Goal) : Call → Prop where
  | probe (settlement : c.settlement = none) (told : c.told = []) (reply : c.reply = none) :
      Awaits c session goal (.probing goal)
  | asked (call : Call) (settled : Settlement) (hcall : c.request.asks? = some call)
      (settlement : c.settlement = some settled) (running : settled.status = .running)
      (same : settled.session = session) (told : c.told = settled.told) (reply : c.reply = none) :
      Awaits c session goal call

/-- A call that settles the status waits for a reply, and for nobody else's
    probe, because nobody else calls. -/
theorem Awaits.exchange {c : Case} {session : Session} {goal : Goal} {call : Call}
    (h : c.Awaits session goal call) : call.exchange?.isSome = true := by
  cases h with
  | probe => rfl
  | asked _ _ hcall => exact (Supervisor.exchange_of_asks hcall).2

/-- A turn of the call leaves it waiting as it should, or has ended it in one of
    the ways. -/
structure Lands (c : Case) (r : Supervisor.Result) : Prop where
  waits : ∀ goal call, c.request.goal? = some goal → r.2 = .waits call →
    c.Awaits r.1.session goal call
  ends : ∀ goal outcome, c.request.goal? = some goal → r.2 = .finished outcome →
    ∃ settled more, c.settlement = some settled ∧ c.told = settled.told ++ more ∧
      settled.Ends c.request c.reply outcome more r.1.session

/-- Nothing is said of calls that do not settle the status once. -/
theorem Lands.of_goal {c : Case} {r : Supervisor.Result}
    (h : ∀ goal, c.request.goal? = some goal → c.Lands r) : c.Lands r where
  waits := fun goal call hgoal => (h goal hgoal).waits goal call hgoal
  ends := fun goal outcome hgoal => (h goal hgoal).ends goal outcome hgoal

/-- A turn that has settled the status does what there is to do with it. -/
theorem lands_comes {c : Case} {settled : Settlement} {f : Supervisor → Supervisor.Result}
    {u : Supervisor} (h : Supervisor.Comes c.request settled f u)
    (hsettlement : c.settlement = some settled) (hreply : c.reply = none)
    (hsession : settled.session = u.session)
    (htold : ∀ ns, Supervisor.Publishes f u ns → c.told = settled.told ++ ns) :
    c.Lands (f u) := by
  cases h with
  | ends t outcome more hon hends =>
      rcases Supervisor.Publishes.intro hon with ⟨hpublishes, heq⟩
      rw [heq]
      refine ⟨fun goal call _ hwaits => Turn.noConfusion hwaits,
        fun goal there _ hfinished => ⟨settled, more, hsettlement, htold more hpublishes, ?_⟩⟩
      rw [hreply, ← Turn.finished.inj hfinished]
      exact hends
  | asks call hcall hrunning hon =>
      rcases Supervisor.Publishes.quiet hon with ⟨hpublishes, heq⟩
      have hnothing : c.told = settled.told := by
        rw [htold [] hpublishes, List.append_nil]
      rw [heq]
      refine ⟨fun goal there _ hwaits => ?_, fun goal outcome _ hfinished =>
        Turn.noConfusion hfinished⟩
      rw [← Turn.waits.inj hwaits]
      exact .asked call settled hcall hsettlement hrunning hsession hnothing hreply

variable {c : Case} {s : Supervisor} {env : Surroundings} {id : Nat}

/-- The call begins, and probes or goes on with the status that is settled. -/
theorem lands_begun {request : Request} {goal : Goal} (hgoal : request.goal? = some goal)
    (hnone : s.call? id = none) (hsettled : ∀ launch, s.belief ≠ .probing launch) :
    (takes { request } s env (.begin id request)).Lands (s.enter env request) := by
  let c : Case := takes { request } s env (.begin id request)
  have henter : ∀ j, (s.on j).enter env request = (s.on j).pursue env goal :=
    fun j => Supervisor.enter_of_goal hgoal _
  have htold : ∀ ns, Supervisor.Publishes (Supervisor.enter env request) s ns → c.told = ns :=
    fun ns hns => (Supervisor.hears_begin hnone hns).told_eq
  have hsettlement : c.settlement = (s.settledAt env.now).map fun settled =>
      { settled with told := [] ++ settled.told } := by
    have hsome : request.goal?.isSome = true := by
      rw [hgoal]
      rfl
    exact congrArg (Option.map _) (if_pos hsome)
  rcases Supervisor.comes_pursue hgoal hsettled with
    ⟨hnot, t, hon⟩ | ⟨settled, hat, hnew, hsession, hcomes⟩
  · rcases Supervisor.Publishes.quiet fun j => (henter j).trans (hon j) with ⟨hpublishes, heq⟩
    rw [heq]
    refine ⟨fun there call hthere hwaits => ?_, fun _ _ _ hfinished => Turn.noConfusion hfinished⟩
    rw [← Turn.waits.inj hwaits, ← Option.some.inj (hgoal.symm.trans hthere)]
    exact .probe (by rw [hsettlement, hnot]; rfl) (htold [] hpublishes) rfl
  · refine lands_comes (hcomes.of_eq henter) ?_ rfl hsession fun ns hns => ?_
    · rw [hsettlement, hat]
      rfl
    · rw [hnew]
      exact htold ns hns

/-- The reply to its probe settles the status, and the call goes on with that. -/
theorem lands_probed {goal : Goal} (hgoal : c.request.goal? = some goal)
    (hcall : s.call? id = some (.probing goal)) (hsettlement : c.settlement = none)
    (htold : c.told = []) (hreply : c.reply = none) (reply : Except ControlError String) :
    (c.takes s env (.reply id reply)).Lands
      (((s.without id).complete (.probing goal) (.replied reply)).carryOn env (.probing goal)
        reply) := by
  let u := (s.without id).complete (.probing goal) (.replied reply)
  have hk : u.lastKnown ≠ .unknown :=
    Supervisor.lastKnown_ne_unknown (Supervisor.complete_probe_ne_probing rfl (.replied reply))
  have hcomes : Supervisor.Comes c.request ⟨u.lastKnown, u.session,
      (s.without id).announces (.probing goal) (.replied reply)⟩
      (Supervisor.proceed env goal u.lastKnown) u := Supervisor.comes_proceed hgoal _ hk
  have hresume : ∀ j, (u.on j).carryOn env (.probing goal) reply
      = (u.on j).proceed env goal u.lastKnown := by
    intro j
    rw [Supervisor.carryOn, Supervisor.resume_eq, Supervisor.lastKnown_on, if_neg hk]
  refine lands_comes (hcomes.of_eq hresume) ?_ ?_ rfl fun ns hns => ?_
  · have hsettled : s.settlement? env (.reply id reply) = s.settledBy reply := by
      rw [Supervisor.settlement?, hcall]
    rw [takes, hsettlement, hsettled, Supervisor.settledBy_eq id goal reply, htold]
    rfl
  · have hanswer : s.answer? (.reply id reply) = none := by
      rw [Supervisor.answer?, hcall]
      rfl
    rw [takes, hreply, hanswer]
    rfl
  · rw [takes, htold, (Supervisor.hears_reply hcall rfl hns).told_eq]
    rfl

/-- The reply to what it has asked ends the call. -/
theorem lands_answered {call : Call} {settled : Settlement}
    (hasks : c.request.asks? = some call) (hcall : s.call? id = some call)
    (hsettlement : c.settlement = some settled) (hrunning : settled.status = .running)
    (hsame : settled.session = s.session) (htold : c.told = settled.told)
    (hreply : c.reply = none) (reply : Except ControlError String) :
    (c.takes s env (.reply id reply)).Lands
      (((s.without id).complete call (.replied reply)).carryOn env call reply) := by
  rcases Supervisor.exchange_of_asks hasks with ⟨hprobe, hex⟩
  have hanswer : s.answer? (.reply id reply) = some reply := by
    rw [Supervisor.answer?, hcall]
    dsimp only
    rw [hprobe]
    rfl
  rcases Supervisor.ends_reply (s := s.without id) hasks hrunning hsame reply with
    ⟨outcome, hon, hends⟩
  rcases Supervisor.Publishes.quiet (f := fun s => s.carryOn env call reply) hon with
    ⟨hpublishes, heq⟩
  rw [heq]
  refine ⟨fun _ _ _ hwaits => Turn.noConfusion hwaits, fun _ there _ hfinished =>
    ⟨settled, (s.without id).announces call (.replied reply), ?_, ?_, ?_⟩⟩
  · rw [takes, hsettlement]
    rfl
  · rw [takes, htold, (Supervisor.hears_reply hcall hex hpublishes).told_eq, List.append_nil]
  · rw [takes, hreply, hanswer, ← Turn.finished.inj hfinished]
    exact hends

end Case

/-- The supervisor, and the calls that were made one at a time. -/
structure Casebook where
  now : Supervisor
  /-- The calls that are over. -/
  past : List Case := []
  /-- The call that waits. -/
  current : Option Case := none

namespace Casebook

/-- Nothing has happened yet. -/
def start (config : Config) : Casebook :=
  { now := .initial config }

/-- The call whose turn an action is, as it is when the turn begins. -/
def opened (b : Casebook) : Action → Option Case
  | .begin _ request => some { request }
  | _ => b.current

/-- A turn of the only call has ended. -/
def turned (b : Casebook) (c : Option Case) (id : Nat) (r : Supervisor × Option Outcome) :
    Casebook :=
  if (r.1.call? id).isSome then { b with now := r.1, current := c }
  else
    { now := r.1
      past := b.past ++
        (c.map fun c => { c with outcome := r.2.map (·, r.1.session) }).toList
      current := none }

/-- An action was taken. -/
def note (b : Casebook) (env : Surroundings) (action : Action)
    (r : Supervisor × Option Outcome) : Casebook :=
  match action.caller? with
  | some id => b.turned ((b.opened action).map fun c => c.takes b.now env action) id r
  | none => { b with now := r.1 }

/-- Something happens, if it can. No call is made while another waits. -/
def see (b : Casebook) (h : Happening) : Casebook :=
  if h.isCall && !b.now.calls.isEmpty then b
  else match h with
    | .act env action =>
      match b.now.step env action with
      | some r => b.note env action r
      | none => b
    | .setProject project => { b with now := b.now.setProject project }
    | .elsewhere journal jobs => { b with now := { b.now with journal, jobs } }

/-- Several things happen in order. -/
def after (b : Casebook) (happenings : List Happening) : Casebook :=
  happenings.foldl see b

open Supervisor (Alone Advance endTurn)

variable {b : Casebook} {env : Surroundings} {id : Nat}

/-- All operations that are over have ended in one of the ways, and the call
    that waits is the only one and has settled the status if it asks
    anything. -/
structure Kept (b : Casebook) : Prop where
  alone : Alone b.now.calls b.now.belief
  waits : ∀ id call, b.now.call? id = some call → ∃ c, b.current = some c ∧
    ∀ goal, c.request.goal? = some goal → c.Awaits b.now.session goal call
  past : ∀ c ∈ b.past, c.Closed

theorem kept_start (config : Config) : (start config).Kept where
  alone := .nobody _ fun _ => Belief.noConfusion
  waits := fun _ _ hcall => absurd hcall (by simp [start, Supervisor.initial, Supervisor.call?])
  past := fun _ hc => absurd hc List.not_mem_nil

/-- What happens besides changes neither calls nor session. -/
theorem Kept.of_same (hb : b.Kept) {s : Supervisor} (hcalls : s.calls = b.now.calls)
    (hsession : s.session = b.now.session) : Kept { b with now := s } where
  alone := by
    have hbelief : s.belief = b.now.belief := congrArg Session.belief hsession
    rw [hcalls, hbelief]
    exact hb.alone
  waits := fun id call hcall => by
    rw [hsession]
    exact hb.waits id call ((Supervisor.call?_congr hcalls id).symm.trans hcall)
  past := hb.past

/-- A turn of the only call ends, and so does the call or it waits on. -/
theorem kept_turned (hb : b.Kept) {u : Supervisor} {r : Supervisor.Result} {c : Case}
    (hcalls : u.calls = []) (hsettled : ∀ launch, u.belief ≠ .probing launch)
    (hadvance : Advance u r)
    (hlands : c.Lands r) :
    (b.turned (some c) id (endTurn id r)).Kept := by
  have hself : (endTurn id r).1.call? id = r.2.call? := Supervisor.call?_endTurn_self id r
  have halone := hadvance.alone id hcalls hsettled
  have hsession : (endTurn id r).1.session = r.1.session := by
    rcases r with ⟨t, outcome | call⟩ <;> rfl
  rw [turned, hself, hsession]
  rcases r with ⟨t, outcome | call⟩
  · refine ⟨halone, fun k call hk => ?_, fun there hthere => ?_⟩
    · exact nomatch hadvance.call?_of_nobody hcalls hk
    · rcases List.mem_append.mp hthere with hbefore | hlast
      · exact hb.past there hbefore
      · rw [List.mem_singleton.mp hlast]
        intro goal there session hgoal houtcome
        rcases Prod.mk.inj (Option.some.inj houtcome) with ⟨hthere, hthen⟩
        rw [← hthere, ← hthen]
        exact hlands.ends goal outcome hgoal rfl
  · refine ⟨halone, fun k other hk => ⟨c, rfl, fun goal hgoal => ?_⟩, hb.past⟩
    rw [← Option.some.inj (hadvance.call?_of_nobody hcalls hk)]
    exact hlands.waits goal call hgoal rfl

/-- A call is made. -/
theorem kept_begin (hb : b.Kept) (hcalls : b.now.calls = []) (hnone : b.now.call? id = none)
    (request : Request) :
    (b.note env (.begin id request) (endTurn id (b.now.enter env request))).Kept := by
  have hopened := Supervisor.opened_fresh hcalls hb.alone
  have hlands : (Case.takes { request } b.now env (.begin id request)).Lands
      (b.now.enter env request) :=
    .of_goal fun goal hgoal => Case.lands_begun hgoal hnone hopened.settled
  exact kept_turned hb hopened.calls hopened.settled (Supervisor.advance_enter request) hlands

/-- The call that waits gets its reply. -/
theorem kept_reply (hb : b.Kept) {call : Call} (hcall : b.now.call? id = some call)
    (hex : call.exchange?.isSome = true) (reply : Except ControlError String) :
    (b.note env (.reply id reply) (endTurn id
      (((b.now.without id).complete call (.replied reply)).carryOn env call reply))).Kept := by
  rcases hb.waits id call hcall with ⟨c, hc, hawaits⟩
  have hopened := Supervisor.opened_complete hb.alone hcall (.replied reply)
  have hadvance : Advance ((b.now.without id).complete call (.replied reply))
      (((b.now.without id).complete call (.replied reply)).carryOn env call reply) :=
    Supervisor.advance_carryOn hex reply
  have hnoted : b.note env (.reply id reply) (endTurn id
        (((b.now.without id).complete call (.replied reply)).carryOn env call reply))
      = b.turned (some (c.takes b.now env (.reply id reply))) id (endTurn id
        (((b.now.without id).complete call (.replied reply)).carryOn env call reply)) := by
    change b.turned (b.current.map fun c => c.takes b.now env (.reply id reply)) id _ = _
    rw [hc]
    rfl
  rw [hnoted]
  refine kept_turned hb hopened.calls hopened.settled hadvance (.of_goal fun goal hgoal => ?_)
  have hgoal : c.request.goal? = some goal := hgoal
  cases hawaits goal hgoal with
  | probe settlement told answered =>
      exact Case.lands_probed hgoal hcall settlement told answered reply
  | asked _ settled hasks settlement running same told answered =>
      exact Case.lands_answered hasks hcall settlement running same told answered reply

/-- The only call is over without a reply, and has come to nothing that an
    operation comes to. -/
theorem kept_over (hb : b.Kept) {call : Call} (hcall : b.now.call? id = some call)
    (action : Action) (hopened : b.opened action = b.current) {o : Option Outcome}
    (ho : o = none ∨ call = .closing) :
    (b.turned ((b.opened action).map fun c => c.takes b.now env action) id
      ((b.now.without id).complete call .dropped, o)).Kept := by
  rcases hb.waits id call hcall with ⟨c, hc, hawaits⟩
  have hturn := Supervisor.opened_complete hb.alone hcall .dropped
  have hnobody : ∀ k, ((b.now.without id).complete call .dropped).call? k = none :=
    Supervisor.call?_of_nobody hturn.calls
  have hturned : b.turned ((b.opened action).map fun c => c.takes b.now env action) id
        ((b.now.without id).complete call .dropped, o)
      = { now := (b.now.without id).complete call .dropped
          past := b.past ++ [{ c.takes b.now env action with
            outcome := o.map (·, ((b.now.without id).complete call .dropped).session) }]
          current := none } := by
    rw [hopened, hc, turned, hnobody]
    rfl
  rw [hturned]
  refine ⟨?_, fun k other hk => ?_, fun there hthere => ?_⟩
  · dsimp only
    rw [hturn.calls]
    exact .nobody _ hturn.settled
  · exact nomatch (hnobody k).symm.trans hk
  · rcases List.mem_append.mp hthere with hbefore | hlast
    · exact hb.past there hbefore
    · rw [List.mem_singleton.mp hlast]
      intro goal outcome session hgoal houtcome
      rcases ho with rfl | rfl
      · exact absurd houtcome (by simp only [Option.map_none, reduceCtorEq, not_false_eq_true])
      · exact absurd (hawaits goal hgoal).exchange Bool.false_ne_true

/-- Whatever a step is, operations end in one of the ways. -/
theorem kept_step (hb : b.Kept) {action : Action} {r : Supervisor × Option Outcome}
    (h : Supervisor.Steps env b.now action r)
    (hfree : (Happening.act env action).isCall = true → b.now.calls = []) :
    (b.note env action r).Kept := by
  cases h with
  | begins id request hnone => exact kept_begin hb (hfree rfl) hnone request
  | replies id reply call hcall hex => exact kept_reply hb hcall hex reply
  | wakes id goal hcall => exact absurd hcall (hb.alone.not_waiting id goal true)
  | abandons id call hcall => exact kept_over hb hcall (.abandon id) rfl (.inl rfl)
  | closes id hcall => exact kept_over hb hcall (.close id) rfl (.inr rfl)
  | takes => exact hb.of_same rfl rfl
  | writes => exact hb.of_same rfl rfl
  | compilerExits => exact hb.of_same rfl rfl
  | engineExits => exact hb.of_same rfl rfl

/-- Whatever happens with one call at a time, it is on its way to its settlement
    or has come to it. -/
theorem kept_see (hb : b.Kept) (h : Happening) : (b.see h).Kept := by
  unfold see
  split
  next => exact hb
  next hfree =>
    have hnobody : h.isCall = true → b.now.calls = [] := by
      intro hcall
      simpa [hcall] using hfree
    cases h with
    | setProject project =>
        refine ⟨hb.alone, fun id call hcall => ?_, hb.past⟩
        have hcall : b.now.call? id = some call := hcall
        rw [Supervisor.call?_of_nobody (hnobody rfl)] at hcall
        exact nomatch hcall
    | elsewhere journal jobs => exact hb.of_same rfl rfl
    | act env action =>
        dsimp only
        split
        next r hstep => exact kept_step hb (Supervisor.step_eq_some_iff.mp hstep) hnobody
        next => exact hb

/-- However a run goes, operations end in one of the ways. -/
theorem kept_after (hb : b.Kept) (happenings : List Happening) : (b.after happenings).Kept := by
  induction happenings generalizing b with
  | nil => exact hb
  | cons h rest ih => exact ih (kept_see hb h)

end Casebook

end SoftPlc
