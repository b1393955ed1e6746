import SoftPlc.Proofs.Supervisor.Chronicle
import SoftPlc.Proofs.Supervisor.Grounds

/-!
# What is sent to the engine

With one call at a time, what a call sends to the engine follows rules that
can be read off the list of its requests. Nothing is sent by a call that has
found a compilation under way or no engine. Every command comes directly after
a probe of the same call that was answered, whatever the reply said, or is
sent while the engine is believed to run without a probe. Nothing is sent
after a probe that has failed.

The rules are about neighbours in the list only: whether a request may be
sent depends on the one before it, because every operation settles the status
again before each thing it does. So a visit is in order if each of its requests
is in order behind its predecessor, and a turn adds at most one.

What makes this true is that nobody else calls. Then a call whose probe has
failed finds the engine stopped, and the status that it goes on with is the
one that its own probe has settled. With several calls neither is the case.

## Main definitions

* `Dispatch`: A request that was sent, and what came back.
* `Dispatch.Follows`: A request is in order behind another.
* `Visit`: A call, with all that it has sent.
* `Logbook`: The supervisor and all calls, made one at a time.
* `Visit.Disciplined`: The rules.
* `Logbook.Kept`: All visits follow the rules.
* `probedStop`: A run in which an engine is probed and then told to quit.

## Theorems

* `orderly_concat`: One request more.
* `Visit.Disciplined.sends`: What a turn adds is in order.
* `Logbook.kept_after`: In all runs the rules are followed.
* `requests_disciplined`: What follows for each visit.
-/

namespace SoftPlc

/-- A request that a call has sent. -/
structure Dispatch where
  command : Command
  /-- It is a liveness probe. -/
  probe : Bool
  /-- The engine was believed to run without a probe when it was sent. -/
  graced : Bool
  /-- The reply or the error; nothing while it is under way, and none if the
      call was given up. -/
  reply : Option (Except ControlError String) := none

namespace Dispatch

/-- A probe that was answered, whatever the reply says. -/
def Answered (d : Dispatch) : Prop :=
  d.probe = true ∧ ∃ text, d.reply = some (.ok text)

/-- A probe that has failed. -/
def Failed (d : Dispatch) : Prop :=
  d.probe = true ∧ ∃ e, d.reply = some (.error e)

/-- A request may be sent after the one before it. -/
structure Follows (d : Dispatch) (last : Option Dispatch) : Prop where
  probes : d.probe = true → d.command = .execTime ∧ d.graced = false
  commands : d.probe = false → d.graced = true ∨ ∃ p, last = some p ∧ p.Answered
  fresh : ∀ p, last = some p → ¬ p.Failed

end Dispatch

/-- Each request may be sent after the one before it. -/
def Orderly (sent : List Dispatch) : Prop :=
  ∀ before d behind, sent = before ++ d :: behind → d.Follows before.getLast?

/-- A call, with all that it has sent. -/
structure Visit where
  request : Request
  /-- The status that was known when the call was made. -/
  known : RuntimeStatus
  /-- What it has sent, oldest first. -/
  sent : List Dispatch := []
  /-- What it has come to, and the status that was known then; nothing while it
      lasts, and if it was given up. -/
  outcome : Option (Outcome × RuntimeStatus) := none

namespace Visit

/-- The latest request gets its reply. -/
def gets (v : Visit) (reply : Except ControlError String) : Visit :=
  { v with sent := v.sent.dropLast ++
      (v.sent.getLast?.map fun d => { d with reply := some reply }).toList }

/-- A turn ends, and the call may wait for the reply to one more request. -/
def sends (v : Visit) (env : Surroundings) (t : Supervisor) (call : Option Call) : Visit :=
  { v with sent := v.sent ++ (call.bind fun call => call.exchange?.map fun command =>
      { command, probe := call.isProbe, graced := t.graced env.now }).toList }

/-- The call is over. -/
def ends (v : Visit) (outcome : Option Outcome) (status : RuntimeStatus) : Visit :=
  { v with outcome := outcome.map (·, status) }

/-- The rules. -/
structure Disciplined (v : Visit) : Prop where
  hidden : v.known ≠ .running → v.sent = []
  question : v.request = .status → v.sent.length ≤ 1 ∧ ∀ d ∈ v.sent, d.probe = true
  orderly : Orderly v.sent
  answer : v.request = .status → ∀ outcome status,
    v.outcome = some (outcome, status) → outcome = .status status

end Visit

/-- The supervisor, and the calls that were made one at a time. -/
structure Logbook where
  now : Supervisor
  /-- The calls that are over. -/
  past : List Visit := []
  /-- The call that waits. -/
  current : Option Visit := none

namespace Logbook

/-- Nothing has happened yet. -/
def start (config : Config) : Logbook :=
  { now := .initial config }

/-- All calls that were made. -/
def visits (b : Logbook) : List Visit :=
  b.past ++ b.current.toList

/-- The visit whose turn an action is, as it is when the turn begins. -/
def opened (b : Logbook) : Action → Option Visit
  | .begin _ request => some { request, known := b.now.lastKnown }
  | .reply _ reply => b.current.map fun v => v.gets reply
  | _ => b.current

/-- A turn of the only call has ended. -/
def turned (b : Logbook) (v : Option Visit) (env : Surroundings) (id : Nat)
    (r : Supervisor × Option Outcome) : Logbook :=
  let v := v.map fun v => v.sends env r.1 (r.1.call? id)
  if (r.1.call? id).isSome then { b with now := r.1, current := v }
  else
    { now := r.1
      past := b.past ++ (v.map fun v => v.ends r.2 r.1.lastKnown).toList
      current := none }

/-- An action was taken. -/
def note (b : Logbook) (env : Surroundings) (action : Action)
    (r : Supervisor × Option Outcome) : Logbook :=
  match action.caller? with
  | some id => b.turned (b.opened action) env id r
  | none => { b with now := r.1 }

/-- Something happens, if it can. No call is made while another waits. -/
def see (b : Logbook) (h : Happening) : Logbook :=
  if h.request?.isSome && !b.now.calls.isEmpty then b
  else match h with
    | .act env action =>
      match b.now.step env action with
      | some r => b.note env action r
      | none => b
    | .setProject project => { b with now := b.now.setProject project }
    | .elsewhere journal jobs => { b with now := { b.now with journal, jobs } }

/-- Several things happen in order. -/
def after (b : Logbook) (happenings : List Happening) : Logbook :=
  happenings.foldl see b

end Logbook

/-- A place in a list with one more at its end is that end, or a place in the list. -/
theorem split_concat {α : Type} {before behind l : List α} {x y : α}
    (h : l ++ [y] = before ++ x :: behind) :
    (before = l ∧ x = y ∧ behind = []) ∨
      ∃ rest, behind = rest ++ [y] ∧ l = before ++ x :: rest := by
  rcases List.eq_nil_or_concat' behind with rfl | ⟨rest, z, rfl⟩
  · rcases List.append_inj' h rfl with ⟨hl, hx⟩
    exact .inl ⟨hl.symm, (List.singleton_inj.mp hx).symm, rfl⟩
  · have hassoc : l ++ [y] = (before ++ x :: rest) ++ [z] := by
      rw [h, List.append_assoc]
      rfl
    rcases List.append_inj' hassoc rfl with ⟨hl, hz⟩
    rw [List.singleton_inj.mp hz]
    exact .inr ⟨rest, rfl, hl⟩

theorem orderly_nil : Orderly [] := by
  intro before d behind h
  exact absurd h (List.append_ne_nil_of_right_ne_nil _ (List.cons_ne_nil _ _)).symm

/-- One request more is in order if it is in order behind the last. -/
theorem orderly_concat {sent : List Dispatch} {d : Dispatch} :
    Orderly (sent ++ [d]) ↔ Orderly sent ∧ d.Follows sent.getLast? := by
  constructor
  · intro h
    refine ⟨fun before x behind heq => ?_, h sent d [] rfl⟩
    refine h before x (behind ++ [d]) ?_
    rw [heq, List.append_assoc]
    rfl
  · rintro ⟨hsent, hd⟩ before x behind heq
    rcases split_concat heq with ⟨rfl, rfl, rfl⟩ | ⟨rest, rfl, hl⟩
    · exact hd
    · exact hsent before x rest hl

/-- Nothing follows a probe that has failed. -/
theorem Orderly.failed_last {sent before behind : List Dispatch} {d : Dispatch}
    (h : Orderly sent) (heq : sent = before ++ d :: behind) (hfailed : d.Failed) :
    behind = [] := by
  cases behind with
  | nil => rfl
  | cons next rest =>
      have hnext := h (before ++ [d]) next rest (by rw [heq, List.append_assoc]; rfl)
      exact absurd hfailed (hnext.fresh d List.getLast?_concat)

namespace Visit

variable {v : Visit}

theorem gets_sent {before : List Dispatch} {d : Dispatch} (h : v.sent = before ++ [d])
    (reply : Except ControlError String) :
    (v.gets reply).sent = before ++ [{ d with reply := some reply }] := by
  rw [gets, h]
  dsimp only
  rw [List.dropLast_concat, List.getLast?_concat]
  rfl

/-- A reply does not make a request any different. -/
theorem Disciplined.gets (hv : v.Disciplined) {before : List Dispatch} {d : Dispatch}
    (h : v.sent = before ++ [d]) (reply : Except ControlError String) :
    (v.gets reply).Disciplined := by
  have hsent := gets_sent h reply
  refine ⟨fun hk => ?_, fun hrequest => ?_, ?_, hv.answer⟩
  · have hnone := hv.hidden hk
    rw [h] at hnone
    exact absurd hnone (List.append_ne_nil_of_right_ne_nil _ (List.cons_ne_nil _ _))
  · rcases hv.question hrequest with ⟨hlength, hprobes⟩
    rw [h] at hlength hprobes
    rw [hsent]
    refine ⟨?_, fun x hx => ?_⟩
    · rw [List.length_append, List.length_singleton] at hlength ⊢
      exact hlength
    · rcases List.mem_append.mp hx with hx | hx
      · exact hprobes x (List.mem_append_left _ hx)
      · rw [List.mem_singleton.mp hx]
        exact hprobes d List.mem_concat_self
  · have horderly := hv.orderly
    rw [h] at horderly
    rw [hsent]
    rcases orderly_concat.mp horderly with ⟨hbefore, hd⟩
    exact orderly_concat.mpr ⟨hbefore, ⟨hd.probes, hd.commands, hd.fresh⟩⟩

/-- A turn that has a ground for what it does adds nothing, or a request that
    is in order. -/
theorem Disciplined.sends (hv : v.Disciplined) {env : Surroundings} {s : Supervisor}
    {r : Supervisor.Result} {trusted : Prop} (hbacked : Supervisor.Backed env trusted s r)
    (hadvance : Supervisor.Advance s r)
    (hknown : s.lastKnown = .running → v.known = .running)
    (hquestion : v.request = .status → ∀ call, r.2 = .waits call → v.sent = [] ∧ call = .asking)
    (hlast : s.lastKnown = .running → ∀ p, v.sent.getLast? = some p → ¬ p.Failed)
    (htrusted : trusted → ∃ p, v.sent.getLast? = some p ∧ p.Answered) :
    (v.sends env r.1 r.2.call?).Disciplined := by
  rcases r with ⟨t, outcome | call⟩
  · have hsame : v.sends env t (Turn.call? (.finished outcome)) = v := by
      rw [Visit.sends, Turn.call?]
      simp only [Option.bind_none, Option.toList_none, List.append_nil]
    rw [hsame]
    exact hv
  · cases hex : call.exchange? with
    | none =>
        have hsame : v.sends env t (Turn.call? (.waits call)) = v := by
          rw [Visit.sends, Turn.call?, Option.bind_some, hex]
          simp only [Option.map_none, Option.toList_none, List.append_nil]
        rw [hsame]
        exact hv
    | some command =>
        have hsent : (v.sends env t (Turn.call? (.waits call))).sent
            = v.sent ++ [{ command, probe := call.isProbe, graced := t.graced env.now }] := by
          rw [Visit.sends, Turn.call?, Option.bind_some, hex]
          rfl
        have hcommand : call.isProbe = false → s.lastKnown = .running ∧
            (t.graced env.now = true ∨ trusted) := by
          intro hprobe
          have hsome : call.exchange?.isSome = true := by
            rw [hex]
            rfl
          have hrelies := Call.isCommand_of_exchange hsome hprobe
          rcases hbacked.relies hrelies hadvance.engines_of_waits with ⟨hk, _, hground⟩
          exact ⟨hk, hground⟩
        -- Whatever is sent, the engine is known to run.
        have hrunning : s.lastKnown = .running := by
          cases hprobe : call.isProbe with
          | true => exact (hbacked.probes call rfl hprobe).1
          | false => exact (hcommand hprobe).1
        refine ⟨fun hk => absurd (hknown hrunning) hk, fun hrequest => ?_, ?_, hv.answer⟩
        · rcases hquestion hrequest call rfl with ⟨hnone, hasking⟩
          rw [hsent, hnone, hasking]
          refine ⟨Nat.le_refl _, fun d hd => ?_⟩
          rw [List.mem_singleton.mp hd]
          rfl
        · rw [hsent]
          refine orderly_concat.mpr ⟨hv.orderly, fun hprobe => ?_, fun hprobe => ?_,
            hlast hrunning⟩
          · refine ⟨?_, (hbacked.probes call rfl hprobe).2⟩
            have hprobe : call.isProbe = true := hprobe
            cases call with
            | asking => exact (Option.some.inj hex).symm
            | probing goal => exact (Option.some.inj hex).symm
            | _ => exact absurd hprobe Bool.false_ne_true
          · exact (hcommand hprobe).2.imp_right htrusted

/-- The visit belongs to a call that waits, perhaps for the reply to its latest
    request. -/
structure Awaits (v : Visit) (call : Call) : Prop where
  disciplined : v.Disciplined
  question : v.request = .status → call = .asking
  pending : call.exchange?.isSome = true →
    ∃ before d, v.sent = before ++ [d] ∧ d.probe = call.isProbe

theorem sends_nothing (v : Visit) (env : Surroundings) (t : Supervisor) :
    v.sends env t none = v := by
  rw [sends]
  simp only [Option.bind_none, Option.toList_none, List.append_nil]

theorem sends_pending {env : Surroundings} {t : Supervisor} {call : Call}
    (hex : call.exchange?.isSome = true) :
    ∃ before d, (v.sends env t (some call)).sent = before ++ [d] ∧ d.probe = call.isProbe := by
  rcases Option.isSome_iff_exists.mp hex with ⟨command, hcommand⟩
  refine ⟨v.sent, { command, probe := call.isProbe, graced := t.graced env.now }, ?_, rfl⟩
  rw [sends, Option.bind_some, hcommand]
  rfl

end Visit

namespace Supervisor

variable {s : Supervisor} {env : Surroundings}

/-- A question for the status waits for nothing but the reply to its probe, and
    answers with what is known. -/
theorem enter_question (s : Supervisor) (env : Surroundings) :
    (∀ call, (s.enter env .status).2 = .waits call → call = .asking) ∧
      ∀ outcome, (s.enter env .status).2 = .finished outcome →
        outcome = .status (s.enter env .status).1.lastKnown := by
  rcases check_cases s env.now with ⟨launch, _, _, _, hcheck⟩ | ⟨_, hcheck⟩
  · rw [enter, hcheck]
    exact ⟨fun call h => (Turn.waits.inj h).symm, fun outcome h => Turn.noConfusion h⟩
  · rw [enter, hcheck]
    exact ⟨fun call h => Turn.noConfusion h, fun outcome h => (Turn.finished.inj h).symm⟩

end Supervisor

namespace Logbook

open Supervisor (Alone Advance Opened Backed endTurn)

variable {b : Logbook} {v : Visit} {env : Surroundings} {id : Nat}

/-- All calls follow the rules, and the one that waits is the only one. -/
structure Kept (b : Logbook) : Prop where
  alone : Alone b.now.calls b.now.belief
  visits : ∀ v ∈ b.visits, v.Disciplined
  waits : ∀ id call, b.now.call? id = some call → ∃ v, b.current = some v ∧ v.Awaits call

theorem kept_start (config : Config) : (start config).Kept where
  alone := .nobody _ fun _ => Belief.noConfusion
  visits := fun _ hv => absurd hv List.not_mem_nil
  waits := fun _ _ hcall => absurd hcall (by simp [start, Supervisor.initial, Supervisor.call?])

/-- What happens besides leaves the calls as they are. -/
theorem Kept.of_same (hb : b.Kept) {s : Supervisor} (hsame : b.now.SameCalls s) :
    Kept { b with now := s } where
  alone := by
    rw [hsame.1, hsame.2.1]
    exact hb.alone
  visits := hb.visits
  waits := fun id call hcall =>
    hb.waits id call ((Supervisor.call?_congr hsame.1 id).symm.trans hcall)

theorem mem_past {v : Visit} (h : v ∈ b.past) : v ∈ b.visits :=
  List.mem_append_left _ h

/-- A turn of the only call ends, with one request more at most. -/
theorem kept_turned (hb : b.Kept) {u : Supervisor} {r : Supervisor.Result}
    (hcalls : u.calls = []) (hsettled : ∀ launch, u.belief ≠ .probing launch)
    (hadvance : Advance u r) (hsends : (v.sends env r.1 r.2.call?).Disciplined)
    (hwaits : v.request = .status → ∀ call, r.2 = .waits call → call = .asking)
    (hanswer : v.request = .status → ∀ outcome, r.2 = .finished outcome →
      outcome = .status r.1.lastKnown) :
    (b.turned (some v) env id (endTurn id r)).Kept := by
  have hself : (endTurn id r).1.call? id = r.2.call? := Supervisor.call?_endTurn_self id r
  have hothers : ∀ k call, (endTurn id r).1.call? k = some call → r.2.call? = some call :=
    fun _ _ hk => hadvance.call?_of_nobody hcalls hk
  -- Whether a request is sent in grace does not depend on who waits.
  have hsame : ∀ call, v.sends env (endTurn id r).1 call = v.sends env r.1 call := by
    intro call
    have hgraced : (endTurn id r).1.graced env.now = r.1.graced env.now :=
      Supervisor.graced_congr (by rcases r with ⟨t, outcome | call⟩ <;> rfl)
        (Supervisor.endTurn_belief id r) env.now
    rw [Visit.sends, Visit.sends, hgraced]
  have halone := hadvance.alone id hcalls hsettled
  rcases r with ⟨t, outcome | call⟩
  · have hturned : b.turned (some v) env id (endTurn id (t, .finished outcome))
        = { now := (endTurn id (t, .finished outcome)).1
            past := b.past ++ [v.ends (some outcome) t.lastKnown]
            current := none } := by
      rw [turned, hself, Option.map_some, hsame]
      dsimp only [Turn.call?]
      rw [v.sends_nothing]
      rfl
    rw [hturned]
    refine ⟨halone, fun w hw => ?_, fun k call hk => ?_⟩
    · rcases List.mem_append.mp hw with hw | hw
      · rcases List.mem_append.mp hw with hw | hw
        · exact hb.visits w (mem_past hw)
        · rw [List.mem_singleton.mp hw]
          have hv : v.Disciplined := v.sends_nothing env t ▸ hsends
          refine ⟨hv.hidden, hv.question, hv.orderly, fun hrequest o status heq => ?_⟩
          have hpair : (outcome, t.lastKnown) = (o, status) := Option.some.inj heq
          rw [← (Prod.mk.inj hpair).1, ← (Prod.mk.inj hpair).2]
          exact hanswer hrequest outcome rfl
      · exact absurd hw List.not_mem_nil
    · exact absurd (hothers k call hk) (by simp only [Turn.call?, reduceCtorEq,
        not_false_eq_true])
  · have hturned : b.turned (some v) env id (endTurn id (t, .waits call))
        = { b with
            now := (endTurn id (t, .waits call)).1
            current := some (v.sends env t (some call)) } := by
      rw [turned, hself, Option.map_some, hsame]
      rfl
    rw [hturned]
    refine ⟨halone, fun w hw => ?_, fun k other hk => ⟨_, rfl, hsends, ?_, ?_⟩⟩
    · rcases List.mem_append.mp hw with hw | hw
      · exact hb.visits w (mem_past hw)
      · rw [List.mem_singleton.mp hw]
        exact hsends
    · intro hrequest
      rw [← Option.some.inj (hothers k other hk)]
      exact hwaits hrequest call rfl
    · rw [← Option.some.inj (hothers k other hk)]
      exact Visit.sends_pending

/-- The only call is over, and has sent nothing more. -/
theorem kept_over (hb : b.Kept) {call : Call} (hcall : b.now.call? id = some call)
    {o : Option Outcome} (ho : call = .asking → o = none) :
    (b.turned b.current env id ((b.now.without id).complete call .dropped, o)).Kept := by
  rcases hb.waits id call hcall with ⟨v, hv, hawaits⟩
  have hopened := Supervisor.opened_complete hb.alone hcall .dropped
  have hnobody : ∀ k, ((b.now.without id).complete call .dropped).call? k = none :=
    Supervisor.call?_of_nobody hopened.calls
  have hturned : b.turned b.current env id ((b.now.without id).complete call .dropped, o)
      = { now := (b.now.without id).complete call .dropped
          past := b.past ++
            [v.ends o ((b.now.without id).complete call .dropped).lastKnown]
          current := none } := by
    rw [turned, hv, Option.map_some]
    dsimp only
    rw [hnobody, v.sends_nothing]
    rfl
  rw [hturned]
  refine ⟨?_, fun w hw => ?_, fun k other hk => ?_⟩
  · dsimp only
    rw [hopened.calls]
    exact .nobody _ hopened.settled
  · rcases List.mem_append.mp hw with hw | hw
    · rcases List.mem_append.mp hw with hw | hw
      · exact hb.visits w (mem_past hw)
      · rw [List.mem_singleton.mp hw]
        have hd := hawaits.disciplined
        refine ⟨hd.hidden, hd.question, hd.orderly, fun hrequest outcome status heq => ?_⟩
        rw [Visit.ends, ho (hawaits.question hrequest)] at heq
        exact absurd heq (by simp only [Option.map_none, reduceCtorEq, not_false_eq_true])
    · exact absurd hw List.not_mem_nil
  · exact absurd ((hnobody k).symm.trans hk) (by simp only [reduceCtorEq, not_false_eq_true])

/-- A call that is made sends what it may, if nobody else is calling. -/
theorem kept_begin (hb : b.Kept) (hcalls : b.now.calls = []) (request : Request) :
    (b.note env (.begin id request) (endTurn id (b.now.enter env request))).Kept := by
  have hopened := Supervisor.opened_fresh hcalls hb.alone
  have hfresh : Visit.Disciplined { request, known := b.now.lastKnown } :=
    ⟨fun _ => rfl, fun _ => ⟨Nat.zero_le _, fun _ hd => absurd hd List.not_mem_nil⟩, orderly_nil,
      fun _ _ _ h => absurd h (by simp only [reduceCtorEq, not_false_eq_true])⟩
  have hquestion : ∀ call, request = .status → (b.now.enter env request).2 = .waits call →
      call = .asking := by
    rintro call rfl
    exact (Supervisor.enter_question b.now env).1 call
  refine kept_turned hb hopened.calls hopened.settled (Supervisor.advance_enter request) ?_
    (fun hrequest call => hquestion call hrequest) ?_
  · exact hfresh.sends (Supervisor.backed_enter request) (Supervisor.advance_enter request)
      (fun hk => hk) (fun hrequest call hcall => ⟨rfl, hquestion call hrequest hcall⟩)
      (fun _ p hp => absurd hp (by simp only [List.getLast?_nil, reduceCtorEq, not_false_eq_true]))
      False.elim
  · rintro rfl
    exact (Supervisor.enter_question b.now env).2

/-- After the reply to a probe of the only call the engine is known to run only
    if it has answered. -/
theorem answered_of_running (halone : Alone b.now.calls b.now.belief) {call : Call}
    (hcall : b.now.call? id = some call) (hprobe : call.isProbe = true)
    {reply : Except ControlError String}
    (hk : ((b.now.without id).complete call (.replied reply)).lastKnown = .running) :
    ∃ text, reply = .ok text := by
  cases reply with
  | ok text => exact ⟨text, rfl⟩
  | error e =>
      exfalso
      have hopened := Supervisor.opened_complete halone hcall (.replied (.error e))
      rw [Completion.ends_error hprobe] at hopened
      rcases Supervisor.belief_of_lastKnown_running hk with ⟨launch, hb⟩
      have halive : ((b.now.without id).complete call (.replied (.error e))).alive = true := by
        rw [Supervisor.alive, hb]
        rfl
      have hfollows := hopened.follows
      rw [halive] at hfollows
      generalize b.now.alive = before at hfollows
      cases hfollows with
      | starts l hl => exact absurd hl Bool.noConfusion

/-- A reply that is answered with another request has allowed it. -/
theorem kept_reply (hb : b.Kept) {call : Call} (hcall : b.now.call? id = some call)
    (hex : call.exchange?.isSome = true) (reply : Except ControlError String) :
    (b.note env (.reply id reply) (endTurn id
      (((b.now.without id).complete call (.replied reply)).carryOn env call reply))).Kept := by
  rcases hb.waits id call hcall with ⟨v, hv, hawaits⟩
  rcases hawaits.pending hex with ⟨before, d, hsent, hd⟩
  have hopened := Supervisor.opened_complete hb.alone hcall (.replied reply)
  have hadvance : Supervisor.Advance ((b.now.without id).complete call (.replied reply))
      (((b.now.without id).complete call (.replied reply)).carryOn env call reply) :=
    Supervisor.advance_carryOn hex reply
  have hlast : (v.gets reply).sent.getLast? = some { d with reply := some reply } := by
    rw [Visit.gets_sent hsent, List.getLast?_concat]
  have hnoted : b.note env (.reply id reply) (endTurn id
        (((b.now.without id).complete call (.replied reply)).carryOn env call reply))
      = b.turned (some (v.gets reply)) env id (endTurn id
        (((b.now.without id).complete call (.replied reply)).carryOn env call reply)) := by
    rw [note, Action.caller?]
    dsimp only
    rw [opened, hv]
    rfl
  rw [hnoted]
  -- A question for the status is answered, and nothing more is asked.
  have hquestion : (v.gets reply).request = .status → call = .asking := hawaits.question
  refine kept_turned hb hopened.calls hopened.settled hadvance ?_ ?_ ?_
  · refine (hawaits.disciplined.gets hsent reply).sends (Supervisor.backed_carryOn
      (call.isProbe = true ∧ ∃ text, reply = .ok text) hex reply fun hprobe hk =>
        ⟨hprobe, answered_of_running hb.alone hcall hprobe hk⟩) hadvance ?_ ?_ ?_ ?_
    · intro _
      by_contra hk
      have hnone := hawaits.disciplined.hidden hk
      rw [hsent] at hnone
      exact List.append_ne_nil_of_right_ne_nil _ (List.cons_ne_nil _ _) hnone
    · intro hrequest other hother
      rw [hquestion hrequest] at hother
      exact Turn.noConfusion hother
    · intro hk p hp hfailed
      rw [hlast] at hp
      rw [← Option.some.inj hp] at hfailed
      rcases hfailed with ⟨hprobe, e, he⟩
      rcases answered_of_running hb.alone hcall (hd.symm.trans hprobe) hk with ⟨text, rfl⟩
      exact absurd (Option.some.inj he) (by simp only [reduceCtorEq, not_false_eq_true])
    · rintro ⟨hprobe, text, rfl⟩
      exact ⟨_, hlast, hd.trans hprobe, text, rfl⟩
  · intro hrequest other hother
    rw [hquestion hrequest] at hother
    exact Turn.noConfusion hother
  · intro hrequest outcome houtcome
    rw [hquestion hrequest] at houtcome ⊢
    exact (Turn.finished.inj houtcome).symm

/-- Whatever a step is, the rules are followed. -/
theorem kept_step (hb : b.Kept) {action : Action} {r : Supervisor × Option Outcome}
    (h : Supervisor.Steps env b.now action r)
    (hfree : (Happening.act env action).request?.isSome = true → b.now.calls = []) :
    (b.note env action r).Kept := by
  cases h with
  | begins id request hnone => exact kept_begin hb (hfree rfl) request
  | replies id reply call hcall hex => exact kept_reply hb hcall hex reply
  | wakes id goal hcall => exact absurd hcall (hb.alone.not_waiting id goal true)
  | abandons id call hcall => exact kept_over hb hcall fun _ => rfl
  | closes id hcall => exact kept_over hb hcall fun h => Call.noConfusion h
  | takes => exact hb.of_same ⟨rfl, rfl, rfl⟩
  | writes => exact hb.of_same ⟨rfl, rfl, rfl⟩
  | compilerExits => exact hb.of_same ⟨rfl, rfl, rfl⟩
  | engineExits => exact hb.of_same ⟨rfl, rfl, List.length_set⟩

/-- Whatever happens with one call at a time, its requests are kept in order. -/
theorem kept_see (hb : b.Kept) (h : Happening) : (b.see h).Kept := by
  unfold see
  split
  next => exact hb
  next hfree =>
    cases h with
    | setProject project => exact hb.of_same ⟨rfl, rfl, rfl⟩
    | elsewhere journal jobs => exact hb.of_same ⟨rfl, rfl, rfl⟩
    | act env action =>
        dsimp only
        split
        next r hstep =>
          refine kept_step hb (Supervisor.step_eq_some_iff.mp hstep) fun hrequest => ?_
          simpa [hrequest] using hfree
        next => exact hb

/-- However a run goes, the rules are followed. -/
theorem kept_after (hb : b.Kept) (happenings : List Happening) : (b.after happenings).Kept := by
  induction happenings generalizing b with
  | nil => exact hb
  | cons h rest ih => exact ih (kept_see hb h)

end Logbook

/-- With one call at a time, a call that is made while a compilation is under
    way or the engine is not known to run sends nothing. A question for the
    status sends one probe at most, and answers with what is known when it is
    over. Whatever is sent and is no probe is sent directly after a probe of the
    same call that was answered, or while the engine is believed to run without
    one, and then no probe is sent; and a probe that fails is the last thing
    that its call sends. -/
theorem requests_disciplined (config : Config) (happenings : List Happening) :
    ∀ v ∈ ((Logbook.start config).after happenings).visits,
      (v.known ≠ .running → v.sent = []) ∧
      (v.request = .status → v.sent.length ≤ 1 ∧ (∀ d ∈ v.sent, d.probe = true) ∧
        ∀ outcome status, v.outcome = some (outcome, status) → outcome = .status status) ∧
      ∀ before d behind, v.sent = before ++ d :: behind →
        (d.probe = true → d.command = .execTime ∧ d.graced = false) ∧
        (d.probe = false → d.graced = true ∨ ∃ p, before.getLast? = some p ∧ p.Answered) ∧
        (d.Failed → behind = []) := by
  intro v hv
  have hkept := Logbook.kept_after (Logbook.kept_start config) happenings
  have hdisciplined := hkept.visits v hv
  refine ⟨hdisciplined.hidden, fun hrequest => ?_, fun before d behind heq => ?_⟩
  · rcases hdisciplined.question hrequest with ⟨hlength, hprobes⟩
    exact ⟨hlength, hprobes, hdisciplined.answer hrequest⟩
  · have hd := hdisciplined.orderly before d behind heq
    exact ⟨hd.probes, hd.commands, hdisciplined.orderly.failed_last heq⟩

/-- The engine is launched and told to quit, without a grace. -/
def probedStop : List Happening :=
  [.begin 0 .start, .begin 1 .stop, .reply 1 (.ok ""), .reply 1 (.ok "OK")].map
    (.act ⟨0, .ok none, fun _ => .ok none⟩)

theorem requests_disciplined_stop :
    let b := (Logbook.start { startupGrace := .ofMillis 0 }).after probedStop
    ∃ v ∈ b.visits, v.request = .stop ∧
      v.sent.map (fun d => (d.command, d.probe)) = [(.execTime, true), (.quit, false)] ∧
      ∀ before d behind, v.sent = before ++ d :: behind → d.probe = false →
        d.graced = true ∨ ∃ p, before.getLast? = some p ∧ p.Answered := by
  intro b
  have hv : b.visits.get ⟨1, by decide⟩ ∈ b.visits := List.get_mem _ _
  refine ⟨_, hv, by decide, by decide, fun before d behind heq => ?_⟩
  exact ((requests_disciplined _ probedStop _ hv).2.2 before d behind heq).2.1

end SoftPlc
