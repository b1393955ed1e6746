import SoftPlc.Proofs.Supervisor.Grounds
import SoftPlc.Proofs.Supervisor.Watch

/-!
# What a verdict rests on

A call that waits for a probe, its own or another's, is woken when the probe
is over and takes the status from what is known then. That the engine is known
to run ought to mean that it has answered. But the belief is put back as well
when a probe is abandoned, and the same signal is sent, so a call that has
waited for it goes on as if the engine had answered: `wake_after_abandon`. It
also goes on if the engine was launched anew while it waited, whatever became
of the probe.

To say what a verdict rests on, `Audience` keeps for every call what has been
heard of the engine since the call began to wait. There are three things that
speak for an engine, and the belief in a running one comes from the last of
them. This is the invariant: while a call waits for a probe and the engine is
believed to run, a probe has been answered since the wait began, or the last
that was heard is the launch that is believed in, put back or made.

A wait begins only where a probe is noted, so nothing that was heard before it
can be what the belief comes from.

## Main definitions

* `Evidence`: Something that speaks for a running engine.
* `Audience`: The supervisor, and what each call has heard while it waits.
* `Vouches`: What has been heard speaks for a launch.
* `Supervisor.WentOn`: A call has gone on with a running engine.
* `stopMeanwhile`: Runs in which a stop waits for the probe of another call.

## Theorems

* `Audience.informed_after`: What is believed is vouched for, in all runs.
* `Supervisor.wake_after_abandon`: Who waits for an abandoned probe goes on.
* `verdict_vouched`: What an operation goes on with.
* `not_always_answered`: It is not always an answer.
-/

namespace SoftPlc

/-- Something that speaks for a running engine. -/
inductive Evidence where
  /-- It has answered a probe. -/
  | answered
  /-- The probe of a launch was abandoned, and the belief put back. -/
  | restored (launch : Launch)
  /-- It was launched. -/
  | launched (launch : Launch)
  deriving DecidableEq, Repr

/-- The call waits for a probe, its own or another's. -/
def Call.awaitsProbe : Call → Bool
  | asking => true
  | probing _ => true
  | waiting _ _ => true
  | _ => false

/-- What the completion of a probe says of the engine. -/
def Completion.says : Completion → Belief → List Evidence
  | replied (.ok _), _ => [.answered]
  | dropped, .probing launch => [.restored launch]
  | _, _ => []

/-- What the completion of a call says of the engine. -/
def Completion.evidence (c : Completion) (call : Call) (belief : Belief) : List Evidence :=
  if call.isProbe then c.says belief else []

/-- What has been heard speaks for a launch: some probe was answered, or else
    nothing was heard after that the belief in this launch was put back, or
    after it was made. -/
def Vouches (heard : List Evidence) (launch : Launch) : Prop :=
  .answered ∈ heard ∨ heard.getLast? = some (.restored launch) ∨
    heard.getLast? = some (.launched launch)

/-- How the wait of a caller is over, if it is. -/
def Happening.completion? : Happening → Option Completion
  | act _ (.reply _ reply) => some (.replied reply)
  | act _ (.wake _) => some .dropped
  | act _ (.abandon _) => some .dropped
  | act _ (.close _) => some .dropped
  | _ => none

namespace Supervisor

/-- What the end of a wait says of the engine. -/
def hears (s : Supervisor) (h : Happening) : List Evidence :=
  match h.caller?.bind s.call?, h.completion? with
  | some call, some c => c.evidence call s.belief
  | _, _ => []

/-- There is an engine more than before, and it is the one believed in. -/
def launchedSince (s t : Supervisor) : List Evidence :=
  if s.engines.length < t.engines.length then (t.belief.launch?.map .launched).toList else []

end Supervisor

/-- The supervisor, and what each call has heard of the engine since it began
    to wait. -/
structure Audience where
  now : Supervisor
  heard : Nat → List Evidence := fun _ => []

namespace Audience

/-- Nothing has happened yet. -/
def start (config : Config) : Audience :=
  { now := .initial config }

/-- Something has happened. Everybody hears of it but the caller, who begins a
    new wait if it waits again. -/
def note (a : Audience) (h : Happening) (s : Supervisor) : Audience where
  now := s
  heard k := if h.caller? = some k then []
    else a.heard k ++ a.now.hears h ++ a.now.launchedSince s

/-- Something happens, if it can. -/
def see (a : Audience) (h : Happening) : Audience :=
  match a.now.happen h with
  | none => a
  | some s => a.note h s

/-- Several things happen in order. -/
def after (a : Audience) (happenings : List Happening) : Audience :=
  happenings.foldl see a

end Audience

/-- What was heard before is still heard, and nothing more may have been. -/
theorem Vouches.append {heard more : List Evidence} {launch : Launch} (h : Vouches heard launch)
    (hmore : more = [] ∨ .answered ∈ more) : Vouches (heard ++ more) launch := by
  rcases hmore with rfl | hanswered
  · rw [List.append_nil]
    exact h
  · exact .inl (List.mem_append_right heard hanswered)

namespace Supervisor

variable {s t : Supervisor} {env : Surroundings} {launch : Launch}

theorem launchedSince_of_same (h : t.engines.length = s.engines.length) :
    s.launchedSince t = [] := by
  rw [launchedSince, if_neg (by omega)]

/-- Signals reach those who wait, and they go on waiting for a probe. -/
theorem awaitsProbe_of_complete {call other : Call} {c : Completion} {k : Nat}
    (h : (s.complete call c).call? k = some other) (hother : other.awaitsProbe = true) :
    ∃ before, s.call? k = some before ∧ before.awaitsProbe = true := by
  cases hprobe : call.isProbe with
  | false =>
      rw [call?_complete_other hprobe] at h
      exact ⟨other, h, hother⟩
  | true =>
      rw [call?_complete_probe hprobe] at h
      rcases Option.map_eq_some_iff.mp h with ⟨before, hbefore, rfl⟩
      refine ⟨before, hbefore, ?_⟩
      cases before with
      | waiting goal signalled => rfl
      | _ => exact hother

/-- A completion after which the engine is believed to run has either left
    that belief as it was, and said nothing against it, or speaks for it. -/
theorem vouches_complete {call : Call} {c : Completion} {heard : List Evidence}
    (hafter : (s.complete call c).belief = .running launch)
    (hbefore : s.belief = .running launch → Vouches heard launch) :
    Vouches (heard ++ c.evidence call s.belief) launch := by
  cases hprobe : call.isProbe with
  | false =>
      have hnothing : c.evidence call s.belief = [] := by
        rw [Completion.evidence, hprobe, if_neg Bool.false_ne_true]
      rw [belief_complete_other hprobe] at hafter
      split at hafter
      next => exact Belief.noConfusion hafter
      next => exact (hbefore hafter).append (.inl hnothing)
  | true =>
      rw [belief_complete_probe hprobe] at hafter
      rw [Completion.evidence, if_pos hprobe]
      cases hb : s.belief with
      | stopped =>
          rw [hb] at hafter
          exact Belief.noConfusion hafter
      | running there =>
          rw [hb] at hafter
          have hold := hbefore (hb.trans hafter)
          rcases c with (e | text) | _
          · exact hold.append (.inl rfl)
          · exact hold.append (.inr List.mem_cons_self)
          · exact hold.append (.inl rfl)
      | probing there =>
          rw [hb] at hafter
          rcases c with (e | text) | _
          · exact Belief.noConfusion hafter
          · exact .inl (List.mem_append_right heard List.mem_cons_self)
          · -- The probe is abandoned, and the belief in its launch is put back.
            rw [← Belief.running.inj hafter]
            exact .inr (.inl List.getLast?_concat)

/-- A turn after which the engine is believed to run has left the belief as it
    was, or has launched the engine; and its own call does not wait for a
    probe then. -/
theorem Advance.running {r : Result} (h : Advance s r) (hafter : r.1.belief = .running launch) :
    (∀ call, r.2.call? = some call → call.awaitsProbe = false) ∧
      (s.belief = .running launch ∧ r.1.engines.length = s.engines.length ∨
        s.launchedSince r.1 = [.launched launch]) := by
  cases h with
  | probes t call there _ _ _ after _ => exact Belief.noConfusion (hafter.symm.trans after)
  | joins t goal there _ _ _ after => exact Belief.noConfusion (hafter.symm.trans after)
  | quits t next there _ hengines before after =>
      refine ⟨fun call hcall => ?_, .inl ⟨before.trans (after.symm.trans hafter), hengines⟩⟩
      rw [← Option.some.inj hcall]
      rfl
  | launches t outcome now _ hengines _ _ =>
      refine ⟨fun _ hcall => ?_, .inr ?_⟩
      · exact absurd hcall (by simp only [Turn.call?, reduceCtorEq, not_false_eq_true])
      · rw [launchedSince, hafter, hengines, if_pos (Nat.lt_succ_self _)]
        rfl
  | stays t turn _ hengines same hturn =>
      refine ⟨fun call hcall => ?_, .inl ⟨same.symm.trans hafter, hengines⟩⟩
      have hby := hturn call hcall
      cases call with
      | asking => exact absurd hby Bool.false_ne_true
      | probing goal => exact absurd hby Bool.false_ne_true
      | waiting goal signalled => exact absurd hby Bool.false_ne_true
      | _ => rfl

/-- A turn of a call opens, and this says something of the engine. -/
inductive Speaks (s : Supervisor) (id : Nat) : Supervisor → List Evidence → Prop where
  | fresh (hnone : s.call? id = none) : Speaks s id s []
  | completes (call : Call) (c : Completion) (hcall : s.call? id = some call) :
      Speaks s id ((s.without id).complete call c) (c.evidence call s.belief)

/-- What a happening with a caller does, and what is heard of it. -/
theorem happen_speaks {h : Happening} {id : Nat} (hs : s.happen h = some t)
    (hcaller : h.caller? = some id) :
    ∃ u, s.Speaks id u (s.hears h) ∧ (t = u ∨ ∃ r, Advance u r ∧ t = (endTurn id r).1) := by
  have hears : ∀ {call c}, s.call? id = some call → h.completion? = some c →
      s.hears h = c.evidence call s.belief := by
    intro call c hcall hc
    rw [hears, hcaller, Option.bind_some, hcall, hc]
  have hsilent : h.completion? = none → s.hears h = [] := by
    intro hc
    rw [Supervisor.hears, hc]
    split
    next heq => exact absurd heq (by simp only [reduceCtorEq, not_false_eq_true])
    next => rfl
  cases h with
  | setProject project =>
      exact absurd hcaller (by simp only [Happening.caller?, reduceCtorEq, not_false_eq_true])
  | elsewhere journal jobs =>
      exact absurd hcaller (by simp only [Happening.caller?, reduceCtorEq, not_false_eq_true])
  | act env action =>
      rcases Option.map_eq_some_iff.mp hs with ⟨r, hstep, rfl⟩
      -- A turn that begins hears nothing, and any other how the wait has ended.
      cases step_eq_some_iff.mp hstep with
      | begins k request hnone =>
          cases hcaller
          rw [hsilent rfl]
          exact ⟨s, .fresh hnone, .inr ⟨_, advance_enter request, rfl⟩⟩
      | replies k reply call hcall hex =>
          cases hcaller
          rw [hears hcall rfl]
          exact ⟨_, .completes call (.replied reply) hcall,
            .inr ⟨_, advance_carryOn hex reply, rfl⟩⟩
      | wakes k goal hcall =>
          cases hcaller
          rw [hears hcall rfl]
          exact ⟨_, .completes (.waiting goal true) .dropped hcall,
            .inr ⟨_, advance_resume goal, rfl⟩⟩
      | abandons k call hcall =>
          cases hcaller
          rw [hears hcall rfl]
          exact ⟨_, .completes call .dropped hcall, .inl rfl⟩
      | closes k hcall =>
          cases hcaller
          rw [hears hcall rfl]
          exact ⟨_, .completes .closing .dropped hcall, .inl rfl⟩
      | _ => exact absurd hcaller (by simp only [Happening.caller?, Action.caller?, reduceCtorEq,
          not_false_eq_true])

/-- The others are told of the engine by how a turn opens. -/
theorem Speaks.vouches {id k : Nat} {news heard : List Evidence} {call : Call}
    (h : s.Speaks id t news) (hcall : t.call? k = some call) (hawaits : call.awaitsProbe = true)
    (hafter : t.belief = .running launch)
    (hbefore : ∀ call, s.call? k = some call → call.awaitsProbe = true →
      s.belief = .running launch → Vouches heard launch) : Vouches (heard ++ news) launch := by
  cases h with
  | fresh hnone => exact (hbefore call hcall hawaits hafter).append (.inl rfl)
  | completes other c hother =>
      rcases awaitsProbe_of_complete hcall hawaits with ⟨before, hwithout, hwaits⟩
      have hk : s.call? k = some before := by
        rw [call?_without] at hwithout
        split at hwithout
        next => exact absurd hwithout (by simp only [reduceCtorEq, not_false_eq_true])
        next => exact hwithout
      exact vouches_complete (s := s.without id) hafter (hbefore before hk hwaits)

/-- A call that speaks in its turn does not wait at that moment. -/
theorem Speaks.call?_self {id : Nat} {news : List Evidence} (h : s.Speaks id t news) :
    t.call? id = none := by
  cases h with
  | fresh hnone => exact hnone
  | completes call c hcall => exact (Opens.completes call c hcall).call?_self

/-- What a call has to say launches nothing. -/
theorem Speaks.engines {id : Nat} {news : List Evidence} (h : s.Speaks id t news) :
    t.engines = s.engines := by
  cases h with
  | fresh hnone => rfl
  | completes call c hcall => exact engines_complete call c

end Supervisor

namespace Audience

variable {a : Audience}

/-- While a call waits for a probe and the engine is believed to run, what the
    call has heard speaks for the launch that is believed in. -/
def Informed (a : Audience) : Prop :=
  ∀ id call launch, a.now.call? id = some call → call.awaitsProbe = true →
    a.now.belief = .running launch → Vouches (a.heard id) launch

/-- A call that is not in turn hears what the turn of another says, and of the
    launch it makes. -/
theorem heard_note {h : Happening} {s : Supervisor} {k : Nat} (hk : h.caller? ≠ some k) :
    (a.note h s).heard k = a.heard k ++ a.now.hears h ++ a.now.launchedSince s :=
  if_neg hk

/-- A turn keeps the others informed, and its own call does not wait for a
    probe while the engine is believed to run. -/
theorem informed_turn (ha : a.Informed) {h : Happening} {id : Nat} {s : Supervisor}
    (hs : a.now.happen h = some s) (hcaller : h.caller? = some id) : (a.note h s).Informed := by
  intro k call launch hcall hawaits hrunning
  have hcall : s.call? k = some call := hcall
  have hrunning : s.belief = .running launch := hrunning
  rcases Supervisor.happen_speaks hs hcaller with ⟨u, hspeaks, hturn⟩
  by_cases hid : k = id
  · -- The caller itself waits for no probe, or for one that is noted.
    exfalso
    rw [hid] at hcall
    rcases hturn with rfl | ⟨r, hadvance, rfl⟩
    · rw [hspeaks.call?_self] at hcall
      exact absurd hcall (by simp only [reduceCtorEq, not_false_eq_true])
    · rw [hadvance.call?, if_pos rfl] at hcall
      rw [Supervisor.endTurn_belief] at hrunning
      have hno := (hadvance.running hrunning).1 call hcall
      exact absurd (hno.symm.trans hawaits) Bool.false_ne_true
  · rw [heard_note (fun heq => hid (Option.some.inj (heq.symm.trans hcaller)))]
    -- What vouched for others before, and what was heard since, still does.
    have hopened : ∀ {other}, u.call? k = some other → other.awaitsProbe = true →
        u.belief = .running launch → Vouches (a.heard k ++ a.now.hears h) launch := by
      intro other hother hwaits hu
      exact hspeaks.vouches hother hwaits hu fun before hbefore hawaits' hb =>
        ha k before launch hbefore hawaits' hb
    rcases hturn with rfl | ⟨r, hadvance, rfl⟩
    · rw [Supervisor.launchedSince_of_same (congrArg List.length hspeaks.engines),
        List.append_nil]
      exact hopened hcall hawaits hrunning
    · rw [hadvance.call?, if_neg hid] at hcall
      rw [Supervisor.endTurn_belief] at hrunning
      have hsince : a.now.launchedSince (Supervisor.endTurn id r).1
          = u.launchedSince r.1 := by
        rw [Supervisor.launchedSince, Supervisor.launchedSince, Supervisor.endTurn_engines,
          Supervisor.endTurn_belief, hspeaks.engines]
      rw [hsince]
      rcases (hadvance.running hrunning).2 with ⟨hu, hsame⟩ | hlaunched
      · rw [Supervisor.launchedSince_of_same hsame, List.append_nil]
        exact hopened hcall hawaits hu
      · rw [hlaunched]
        exact .inr (.inr List.getLast?_concat)

theorem informed_see (ha : a.Informed) (h : Happening) : (a.see h).Informed := by
  unfold see
  split
  next => exact ha
  next s hs =>
    rcases Supervisor.happen_cases hs with ⟨id, hcaller, _⟩ | ⟨hcaller, hsame⟩
    · exact informed_turn ha hs hcaller
    · intro k call launch hcall hawaits hrunning
      have hno : h.caller? ≠ some k := by
        rw [hcaller]
        simp only [ne_eq, reduceCtorEq, not_false_eq_true]
      have hsilent : a.now.hears h = [] := by
        rw [Supervisor.hears, hcaller]
        rfl
      rw [heard_note hno, hsilent, Supervisor.launchedSince_of_same hsame.2.2, List.append_nil,
        List.append_nil]
      exact ha k call launch ((Supervisor.call?_congr hsame.1 k).symm.trans hcall) hawaits
        (hsame.2.1.symm.trans hrunning)

/-- However a run goes, what is believed is vouched for. -/
theorem informed_after (config : Config) (happenings : List Happening) :
    ((start config).after happenings).Informed := by
  -- The induction is on the run, from any audience that is informed.
  have hafter : ∀ a : Audience, a.Informed → (a.after happenings).Informed := by
    induction happenings with
    | nil => exact fun a ha => ha
    | cons h rest ih => exact fun a ha => ih (a.see h) (informed_see ha h)
  refine hafter (start config) fun id call launch hcall => ?_
  exact absurd hcall (by simp only [start, Supervisor.initial, Supervisor.call?, List.lookup_nil,
    reduceCtorEq, not_false_eq_true])

end Audience

namespace Supervisor

variable {s t u : Supervisor} {env : Surroundings} {id : Nat}

/-- A call has told the engine something, or has been told that it runs
    although it was not launched: the call has gone on with a running engine. -/
def WentOn (s t : Supervisor) (id : Nat) (o : Option Outcome) : Prop :=
  (∃ call, t.call? id = some call ∧ call.isCommand = true) ∨
    o = some (.started (.ok .running)) ∧ t.engines.length = s.engines.length

/-- Only a turn that ends in a wait for a command, or in an answer, has gone on. -/
theorem WentOn.relies {r : Result} (h : s.WentOn (endTurn id r).1 id (endTurn id r).2)
    (hengines : u.engines = s.engines) (hadvance : Advance u r) :
    r.2.relies = true ∧ r.1.engines.length = u.engines.length := by
  rcases h with ⟨call, hcall, hcommand⟩ | ⟨ho, hsame⟩
  · rw [call?_endTurn_self] at hcall
    rcases r with ⟨v, outcome | other⟩
    · exact absurd hcall (by simp only [Turn.call?, reduceCtorEq, not_false_eq_true])
    · rw [Option.some.inj hcall]
      exact ⟨hcommand, hadvance.engines_of_waits⟩
  · rw [endTurn_engines, ← hengines] at hsame
    rcases r with ⟨v, outcome | other⟩
    · have houtcome : outcome = .started (.ok .running) := Option.some.inj ho
      rw [houtcome]
      exact ⟨rfl, hsame⟩
    · exact absurd ho (by simp only [endTurn, reduceCtorEq, not_false_eq_true])

/-- A turn that has gone on has left the belief in a running launch as it was,
    and that is recent, or else trusted. -/
theorem went_on_backed {trusted : Prop} {r : Result}
    (h : s.WentOn (endTurn id r).1 id (endTurn id r).2) (hengines : u.engines = s.engines)
    (hadvance : Advance u r) (hbacked : Backed env trusted u r) :
    ∃ launch, (endTurn id r).1.belief = .running launch ∧ u.belief = .running launch ∧
      ((endTurn id r).1.graced env.now = true ∨ trusted) := by
  rcases h.relies hengines hadvance with ⟨hrelies, hlength⟩
  rcases hbacked.relies hrelies hlength with ⟨hk, hsame, hground⟩
  rcases belief_of_lastKnown_running hk with ⟨launch, hb⟩
  have hgraced : (endTurn id r).1.graced env.now = r.1.graced env.now :=
    graced_congr (by rcases r with ⟨v, outcome | call⟩ <;> rfl) (endTurn_belief id r) env.now
  refine ⟨launch, ?_, hb, ?_⟩
  · rw [endTurn_belief, hsame, hb]
  · rw [hgraced]
    exact hground

/-- Whoever waits for a probe that is abandoned goes on as if the engine had
    answered it. -/
theorem wake_after_abandon {p k : Nat} {call : Call} {goal : Goal} {launch : Launch}
    (hp : s.call? p = some call) (hprobe : call.isProbe = true)
    (hnoted : s.belief = .probing launch) (hk : s.call? k = some (.waiting goal false))
    (hidle : s.isCompiling = false) :
    ∃ t, s.abandon p = some t ∧ t.belief = .running launch ∧
      ∀ env, t.wake env k = some (endTurn k ((t.without k).proceed env goal .running)) := by
  have hne : k ≠ p := by
    intro heq
    rw [heq, hp] at hk
    rw [Option.some.inj hk] at hprobe
    exact Bool.false_ne_true hprobe
  have hbelief : ((s.without p).complete call .dropped).belief = .running launch := by
    rw [belief_complete_probe hprobe, without_belief, hnoted]
    rfl
  refine ⟨_, abandon_eq hp, hbelief, fun env => ?_⟩
  have hcall : ((s.without p).complete call .dropped).call? k = some (.waiting goal true) := by
    rw [call?_complete_probe hprobe, call?_without, if_neg hne, hk]
    rfl
  have hknown : (((s.without p).complete call .dropped).without k).lastKnown = .running := by
    have hstill : (((s.without p).complete call .dropped).without k).isCompiling = false := by
      rw [complete_probe hprobe]
      exact hidle
    rw [lastKnown, hstill, if_neg Bool.false_ne_true, without_belief, hbelief]
  rw [wake, hcall]
  dsimp only
  rw [hknown]
  rfl

end Supervisor

namespace Audience

open Supervisor (endTurn)

variable {a : Audience} {env : Surroundings} {id : Nat}

/-- A call that goes on after something has happened goes by a recent launch, or
    it has waited for a probe and what it has heard speaks for the launch. -/
def Vouched (a : Audience) (env : Surroundings) (action : Action) (id : Nat)
    (t : Supervisor) : Prop :=
  ∃ launch, t.belief = .running launch ∧
    (t.graced env.now = true ∨
      (∃ call, a.now.call? id = some call ∧ call.awaitsProbe = true) ∧
        Vouches (a.heard id ++ a.now.hears (.act env action)) launch)

theorem hears_of_call {action : Action} {call : Call} {c : Completion}
    (hcaller : action.caller? = some id) (hcall : a.now.call? id = some call)
    (hc : (Happening.act env action).completion? = some c) :
    a.now.hears (.act env action) = c.evidence call a.now.belief := by
  rw [Supervisor.hears, Happening.caller?, hcaller, Option.bind_some, hcall, hc]

theorem vouched_begin {request : Request}
    (hon : a.now.WentOn (endTurn id (a.now.enter env request)).1 id
      (endTurn id (a.now.enter env request)).2) :
    a.Vouched env (.begin id request) id (endTurn id (a.now.enter env request)).1 := by
  rcases Supervisor.went_on_backed hon rfl (Supervisor.advance_enter request)
    (Supervisor.backed_enter request) with ⟨launch, hb, _, hgraced | hfalse⟩
  · exact ⟨launch, hb, .inl hgraced⟩
  · exact hfalse.elim

/-- The reply to a probe is trusted for what the call has heard, the reply included. -/
theorem vouched_reply (ha : a.Informed) {call : Call} {reply : Except ControlError String}
    (hcall : a.now.call? id = some call) (hex : call.exchange?.isSome = true)
    {u : Supervisor} (hu : u = (a.now.without id).complete call (.replied reply))
    (hon : a.now.WentOn (endTurn id (u.carryOn env call reply)).1 id
      (endTurn id (u.carryOn env call reply)).2) :
    a.Vouched env (.reply id reply) id (endTurn id (u.carryOn env call reply)).1 := by
  have hears : a.now.hears (.act env (.reply id reply))
      = (Completion.replied reply).evidence call a.now.belief := hears_of_call rfl hcall rfl
  have htrusted : call.isProbe = true → u.lastKnown = .running →
      ∃ there, u.belief = .running there ∧ call.awaitsProbe = true ∧
        Vouches (a.heard id ++ (Completion.replied reply).evidence call a.now.belief) there := by
    intro hprobe hk
    rcases Supervisor.belief_of_lastKnown_running hk with ⟨there, hb⟩
    have hawaits : call.awaitsProbe = true := by
      cases call with
      | asking => rfl
      | probing goal => rfl
      | _ => exact absurd hprobe Bool.false_ne_true
    rw [hu] at hb ⊢
    exact ⟨there, hb, hawaits, Supervisor.vouches_complete (s := a.now.without id) hb
      (ha id call there hcall hawaits)⟩
  have hengines : u.engines = a.now.engines := hu ▸ Supervisor.engines_complete call _
  rcases Supervisor.went_on_backed hon hengines (Supervisor.advance_carryOn hex reply)
    (Supervisor.backed_carryOn _ hex reply htrusted) with ⟨launch, hb, hbefore, hground⟩
  refine ⟨launch, hb, hground.imp_right ?_⟩
  rintro ⟨there, hthere, hawaits, hvouches⟩
  rw [← Belief.running.inj (hbefore.symm.trans hthere)] at hvouches
  rw [hears]
  exact ⟨⟨call, hcall, hawaits⟩, hvouches⟩

/-- A call that is woken has heard everything before. -/
theorem vouched_wake (ha : a.Informed) {goal : Goal}
    (hcall : a.now.call? id = some (.waiting goal true))
    (hon : a.now.WentOn (endTurn id ((a.now.without id).resume env goal
      (a.now.without id).lastKnown)).1 id (endTurn id ((a.now.without id).resume env goal
      (a.now.without id).lastKnown)).2) :
    a.Vouched env (.wake id) id (endTurn id ((a.now.without id).resume env goal
      (a.now.without id).lastKnown)).1 := by
  have hears : a.now.hears (.act env (.wake id)) = [] := hears_of_call rfl hcall rfl
  have htrusted : (a.now.without id).lastKnown = .running →
      ∃ there, a.now.belief = .running there ∧ Vouches (a.heard id) there := by
    intro hk
    rcases Supervisor.belief_of_lastKnown_running hk with ⟨there, hb⟩
    exact ⟨there, hb, ha id _ there hcall rfl hb⟩
  rcases Supervisor.went_on_backed (u := a.now.without id) hon rfl
    (Supervisor.advance_resume goal) (Supervisor.backed_resume _ goal htrusted)
    with ⟨launch, hb, hbefore, hground⟩
  refine ⟨launch, hb, hground.imp_right ?_⟩
  rintro ⟨there, hthere, hvouches⟩
  rw [← Belief.running.inj (hbefore.symm.trans hthere)] at hvouches
  rw [hears, List.append_nil]
  exact ⟨⟨_, hcall, rfl⟩, hvouches⟩

/-- Whoever does not wait afterwards, and is told nothing of a running engine,
    has not gone on. -/
theorem not_wentOn {t : Supervisor} {o : Option Outcome} (hnone : t.call? id = none)
    (ho : o ≠ some (.started (.ok .running))) : ¬ a.now.WentOn t id o := by
  rintro (⟨call, hcall, _⟩ | ⟨hstarted, _⟩)
  · exact absurd (hcall.symm.trans hnone) (by simp only [reduceCtorEq, not_false_eq_true])
  · exact ho hstarted

end Audience

/-- An operation goes on with a running engine in two cases: the engine was
    launched a short time ago, or the call has waited for a probe and what it
    has heard since then, the end of its own wait included, speaks for the
    launch that is believed in. This is an answer to some probe, unless the last
    that was heard is that a probe of this launch was abandoned or that it was
    launched. -/
theorem verdict_vouched (config : Config) (happenings : List Happening) (env : Surroundings)
    (action : Action) (id : Nat) (r : Supervisor × Option Outcome)
    (hstep : ((Audience.start config).after happenings).now.step env action = some r)
    (hcaller : action.caller? = some id)
    (hon : ((Audience.start config).after happenings).now.WentOn r.1 id r.2) :
    ((Audience.start config).after happenings).Vouched env action id r.1 := by
  have hinformed := Audience.informed_after config happenings
  cases Supervisor.step_eq_some_iff.mp hstep with
  | begins k request hnone =>
      cases hcaller
      exact Audience.vouched_begin hon
  | replies k reply call hcall hex =>
      cases hcaller
      exact Audience.vouched_reply hinformed hcall hex rfl hon
  | wakes k goal hcall =>
      cases hcaller
      exact Audience.vouched_wake hinformed hcall hon
  | abandons k call hcall =>
      cases hcaller
      have hover := (Supervisor.Opens.completes call .dropped hcall).call?_self
      exact absurd hon (Audience.not_wentOn hover
        (by simp only [ne_eq, reduceCtorEq, not_false_eq_true]))
  | closes k hcall =>
      cases hcaller
      have hover := (Supervisor.Opens.completes .closing .dropped hcall).call?_self
      exact absurd hon (Audience.not_wentOn hover
        (by simp only [ne_eq, Option.some.injEq, reduceCtorEq, not_false_eq_true]))
  | _ => exact absurd hcaller (by simp only [Action.caller?, reduceCtorEq, not_false_eq_true])

/-- A question for the status probes the engine, which was launched before, and a
    stop waits for that probe. Then one thing more happens. -/
def stopMeanwhile (last : Action) : List Happening :=
  [.begin 0 .start, .begin 1 .status, .begin 2 .stop, last].map
    (.act ⟨0, .ok none, fun _ => .ok none⟩)

theorem verdict_vouched_answered :
    let a := (Audience.start { startupGrace := .ofMillis 0 }).after
      (stopMeanwhile (.reply 1 (.ok "61")))
    a.heard 2 = [.answered] ∧
      ∃ r, a.now.step ⟨0, .ok none, fun _ => .ok none⟩ (.wake 2) = some r ∧
        a.Vouched ⟨0, .ok none, fun _ => .ok none⟩ (.wake 2) 2 r.1 := by
  have hstep := Option.eq_some_of_isSome (o := ((Audience.start
    { startupGrace := .ofMillis 0 }).after (stopMeanwhile (.reply 1 (.ok "61")))).now.step
      ⟨0, .ok none, fun _ => .ok none⟩ (.wake 2)) (by decide)
  refine ⟨by decide, _, hstep, verdict_vouched _ _ _ _ _ _ hstep rfl ?_⟩
  exact .inl ⟨.quitting .answer, by decide, rfl⟩

/-- The stop is told to go on by a probe that was given up, and orders an engine
    to quit that has never said anything. -/
theorem not_always_answered :
    ¬ ∀ (config : Config) (happenings : List Happening) (env : Surroundings) (id : Nat)
        (r : Supervisor × Option Outcome),
      let a := (Audience.start config).after happenings
      a.now.step env (.wake id) = some r → a.now.WentOn r.1 id r.2 →
      r.1.graced env.now = true ∨
        ∃ there k text, .act there (.reply k (.ok text)) ∈ happenings := by
  intro h
  have hstep := Option.eq_some_of_isSome (o := ((Audience.start
    { startupGrace := .ofMillis 0 }).after (stopMeanwhile (.abandon 1))).now.step
      ⟨0, .ok none, fun _ => .ok none⟩ (.wake 2)) (by decide)
  rcases h _ _ _ 2 _ hstep (.inl ⟨.quitting .answer, by decide, rfl⟩)
    with hgraced | ⟨there, k, text, hmem⟩
  · exact absurd hgraced (by decide)
  · rcases List.mem_map.mp hmem with ⟨action, haction, heq⟩
    cases heq
    simp only [List.mem_cons, reduceCtorEq, List.not_mem_nil, or_self] at haction

end SoftPlc
