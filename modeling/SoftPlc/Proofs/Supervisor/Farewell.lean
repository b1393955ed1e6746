import SoftPlc.Proofs.Supervisor.Admission
import SoftPlc.Proofs.Supervisor.Alone
import SoftPlc.Proofs.Supervisor.Hearing
import SoftPlc.Proofs.Supervisor.Purposes

/-!
# Who is asked to quit before the end

Shutting down, the supervisor asks the engine to quit if it is known to run,
and tells the background work to end. If the engine was believed to be there
when the call was made, it should be asked, or else be known to be gone.

A compilation that is under way hides the belief. One can be under way while an
engine is believed to run, because compiling goes on when the order to quit
has failed. Shutting down then asks nobody, and neither does it if a
compilation begins while it waits for a probe. This is the only exception: a
call that leaves without having asked has found no engine, and if there was one
when the call was made, a notice has told everybody of its end since.

The notice may be about an order to quit that another call has sent, and it
need not be about the engine that was there at first.

## Main definitions

* `Notice.isEnd`: The notices that an engine is gone.
* `Turn.Leaves`, `Supervisor.Leaves`: The background work is told to end.
* `Supervisor.Parts`: What a turn comes to that is to stop the engine first.
* `Vigil`: The supervisor, and what calls have heard of the end of engines.

## Theorems

* `parts_shutDown`, `parts_resume`: What turns of a call to shut down come to.
* `alive_or_told`: An engine is believed in until a notice tells of its end.
* `Vigil.kept_after`: So does every call that is made meanwhile.
* `asked_or_gone`: Whom a call to shut down has asked, and when it asks nobody.
-/

namespace SoftPlc

/-- The notice tells that an engine is gone. -/
def Notice.isEnd (n : Notice) : Bool :=
  n.kind == .runtimeLost || n.kind == .runtimeStopped

/-- The background work is told to end, or has been before. -/
def Turn.Leaves (turn : Turn) : Prop :=
  turn = .finished .shutDown ∨ turn = .waits .closing

namespace Supervisor

variable {s t : Supervisor} {env : Surroundings} {id : Nat}

theorem leaves_cancel (s : Supervisor) : s.cancel.2.Leaves := by
  unfold cancel
  split
  next => exact .inl rfl
  next => exact .inr rfl

/-- What a turn comes to that is to stop the engine before the end. While a
    compilation is under way it leaves; otherwise it waits, asks the engine to
    quit, or leaves where there is none. -/
structure Parts (s : Supervisor) (turn : Turn) : Prop where
  hidden : s.isCompiling = true → turn.Leaves
  seen : s.isCompiling = false → turn.Leaves → s.alive = false

theorem Parts.waits {call : Call} (hknown : s.lastKnown ≠ .compiling) (hcall : call ≠ .closing) :
    Parts s (.waits call) where
  hidden := fun hc => absurd (isCompiling_iff_lastKnown.mp hc) hknown
  seen := by
    rintro _ (h | h)
    · exact absurd h (by simp only [reduceCtorEq, not_false_eq_true])
    · exact absurd (Turn.waits.inj h) hcall

theorem parts_stopAt (hknown : s.lastKnown ≠ .unknown) :
    Parts s (s.stopAt env .shutdown s.lastKnown).2 := by
  have hleaves := leaves_cancel s
  cases hk : s.lastKnown with
  | unknown => exact absurd hk hknown
  | running => exact .waits (hk ▸ RuntimeStatus.noConfusion) Call.noConfusion
  | stopped =>
      refine ⟨fun _ => hleaves, fun _ _ => ?_⟩
      rw [alive, belief_of_lastKnown_stopped hk]
      rfl
  | compiling =>
      refine ⟨fun _ => hleaves, fun hno => ?_⟩
      exact absurd (hno.symm.trans (isCompiling_iff_lastKnown.mpr hk)) Bool.false_ne_true

theorem parts_stopThen : Parts s (s.stopThen env .shutdown).2 := by
  have hwaits : ∀ {u : Supervisor} {call : Call}, s.lastKnown ≠ .compiling → call ≠ .closing →
      s.stopThen env .shutdown = (u, .waits call) → Parts s (s.stopThen env .shutdown).2 := by
    intro u call hknown hcall heq
    rw [heq]
    exact .waits hknown hcall
  rcases settleThen_cases s env.now (.stop .shutdown) (stopAt env .shutdown) with
    ⟨launch, _, hk, _, hon⟩ | ⟨hk, hon⟩ | ⟨hk, _, hon⟩
  · exact hwaits (hk ▸ RuntimeStatus.noConfusion) Call.noConfusion (hon s.journal)
  · exact hwaits (hk ▸ RuntimeStatus.noConfusion) Call.noConfusion (hon s.journal)
  · have heq : s.stopThen env .shutdown = s.stopAt env .shutdown s.lastKnown := hon s.journal
    rw [heq]
    exact parts_stopAt hk

/-- A call to shut down that goes on with a settled status leaves without asking
    only where it finds no engine, or a compilation. -/
theorem parts_resume : Parts s (s.resume env (.stop .shutdown) s.lastKnown).2 := by
  rw [resume_eq]
  split
  next => exact parts_stopThen
  next hk => exact parts_stopAt hk

/-- The first turn of a call to shut down does the same. -/
theorem parts_shutDown : Parts s (s.shutDown env).2 := by
  -- That the shutdown is announced changes neither belief nor jobs.
  let told := s.publish { kind := .shutdownRequested }
  have hstop : Parts told (told.stopThen env .shutdown).2 := parts_stopThen
  have hleaves := leaves_cancel told
  unfold shutDown
  dsimp only
  split
  next => exact ⟨hstop.hidden, hstop.seen⟩
  next => exact ⟨hstop.hidden, hstop.seen⟩
  next hrunning hunknown =>
    refine ⟨fun _ => hleaves, fun hno _ => ?_⟩
    have hk : s.lastKnown = .stopped := by
      cases hk : s.lastKnown with
      | stopped => rfl
      | running => exact absurd hk hrunning
      | unknown => exact absurd hk hunknown
      | compiling =>
          exact absurd (hno.symm.trans (isCompiling_iff_lastKnown.mpr hk)) Bool.false_ne_true
    rw [alive, belief_of_lastKnown_stopped hk]
    rfl

/-- In a turn of a call the background work is told to end, or found to have
    been told. -/
def Leaves (s : Supervisor) (id : Nat) (r : Supervisor × Option Outcome) : Prop :=
  s.call? id ≠ some .closing ∧ (r.2 = some .shutDown ∨ r.1.call? id = some .closing)

theorem leaves_endTurn (hopen : s.call? id ≠ some .closing) (r : Result) :
    s.Leaves id (endTurn id r) ↔ r.2.Leaves := by
  rw [Supervisor.Leaves, call?_endTurn_self, and_iff_right hopen]
  rcases r with ⟨u, outcome | call⟩
  · simp [endTurn, Turn.Leaves, Turn.call?]
  · simp [endTurn, Turn.Leaves, Turn.call?]

/-- Whoever goes on leaves an engine that is believed in as it is. -/
theorem Advance.alive {r : Result} (h : Advance s r) (hs : s.alive = true) :
    r.1.alive = true := by
  cases h with
  | probes u call launch _ _ _ after _ =>
      rw [Supervisor.alive, after]
      rfl
  | joins u goal launch _ _ _ after =>
      rw [Supervisor.alive, after]
      rfl
  | quits u next launch _ _ _ after =>
      rw [Supervisor.alive, after]
      rfl
  | launches u outcome now _ _ _ after =>
      rw [Supervisor.alive, after]
      rfl
  | stays u turn _ _ same _ =>
      rw [Supervisor.alive, same]
      exact hs

/-- A completion that ends the belief in an engine tells of its end. -/
theorem alive_complete (call : Call) (c : Completion) (hs : s.alive = true) :
    (s.complete call c).alive = true ∨ (s.announces call c).filter Notice.isEnd ≠ [] := by
  cases hprobe : call.isProbe with
  | true =>
      rw [alive, belief_complete_probe hprobe]
      cases hb : s.belief with
      | stopped =>
          rw [alive, hb] at hs
          exact absurd hs Bool.false_ne_true
      | running launch => exact .inl rfl
      | probing launch =>
          rcases c with (e | text) | _
          · have hlost : s.verdict (.error e)
                = [{ kind := .runtimeLost, reason := some e.text }] := by
              unfold verdict
              rw [hb]
            refine .inr ?_
            rw [announces_probe hprobe, hlost]
            exact List.cons_ne_nil _ _
          · exact .inl rfl
          · exact .inl rfl
  | false =>
      rw [alive, belief_complete_other hprobe]
      -- Without a probe the belief ends only with an order to quit that was acknowledged.
      by_cases hack : (call.settles && c.isAck) = true
      · refine .inr ?_
        rcases Bool.and_eq_true_iff.mp hack with ⟨hsettles, hack⟩
        cases call with
        | quitting next =>
            rcases c with (e | text) | _
            · exact absurd hack Bool.false_ne_true
            · exact List.cons_ne_nil _ _
            · exact absurd hack Bool.false_ne_true
        | asking => exact absurd hprobe.symm Bool.false_ne_true
        | probing goal => exact absurd hprobe.symm Bool.false_ne_true
        | _ => exact absurd hsettles Bool.false_ne_true
      · rw [if_neg hack]
        exact .inl hs

/-- What a turn opens with is told in it. -/
theorem alive_or_told_reply {call : Call} (hcall : s.call? id = some call)
    (hex : call.exchange?.isSome = true) (reply : Except ControlError String)
    (hs : s.alive = true) :
    ((s.without id).complete call (.replied reply)).alive = true ∨
      (s.told (.act env (.reply id reply))).filter Notice.isEnd ≠ [] := by
  rcases alive_complete (s := s.without id) call (.replied reply) hs with hu | hends
  · exact .inl hu
  · have htells : Tells call.starts (fun s => s.carryOn env call reply)
        ((s.without id).complete call (.replied reply)) := tells_carryOn hex reply
    rcases htells with ⟨ns, hns, _⟩
    rw [(hears_reply hcall hex hns).told_eq, List.filter_append]
    exact .inr (List.append_ne_nil_of_left_ne_nil hends _)

/-- An engine is believed in until a notice tells of its end. -/
theorem alive_or_told {action : Action} {r : Supervisor × Option Outcome}
    (h : Steps env s action r) (hs : s.alive = true) :
    r.1.alive = true ∨ (s.told (.act env action)).filter Notice.isEnd ≠ [] := by
  have hturn : ∀ {id : Nat} {q : Result} {u : Supervisor}, Advance u q → u.alive = true →
      (endTurn id q).1.alive = true := by
    intro id q u hadvance hu
    rw [alive, endTurn_belief]
    exact hadvance.alive hu
  cases h with
  | begins id request hnone => exact .inl (hturn (advance_enter request) hs)
  | replies id reply call hcall hex =>
      rcases alive_or_told_reply hcall hex reply hs with hu | htold
      · exact .inl (hturn (advance_carryOn hex reply) hu)
      · exact .inr htold
  | wakes id goal hcall => exact .inl (hturn (advance_resume goal) hs)
  | abandons id call hcall =>
      rcases alive_complete (s := s.without id) call .dropped hs with hu | hends
      · exact .inl hu
      · rw [announces_dropped] at hends
        exact absurd rfl hends
  | closes => exact .inl hs
  | takes => exact .inl hs
  | writes => exact .inl hs
  | compilerExits => exact .inl hs
  | engineExits => exact .inl hs

theorem stop_of_purpose {goal : Goal} (h : goal.purpose = .shutdown) : goal = .stop .shutdown := by
  cases goal with
  | stop after =>
      cases after with
      | shutdown => rfl
      | _ => exact absurd h (by simp only [Goal.purpose, AfterStop.purpose, reduceCtorEq,
          not_false_eq_true])
  | _ => exact absurd h (by simp only [Goal.purpose, reduceCtorEq, not_false_eq_true])

/-- The turn of a call to shut down that has not asked the engine before. -/
structure Decides (s : Supervisor) (env : Surroundings) (action : Action) (id : Nat)
    (r : Supervisor × Option Outcome) : Prop where
  hidden : s.isCompiling = true → s.Leaves id r
  seen : s.isCompiling = false → s.Leaves id r →
    s.alive = false ∨ (s.told (.act env action)).filter Notice.isEnd ≠ []

/-- If there was an engine when the turn began, and there is none when it has
    opened, its end is told. -/
theorem Parts.decides {u : Supervisor} {q : Result} {action : Action} (h : Parts u q.2)
    (hopen : s.call? id ≠ some .closing) (hsame : SameJobs s u)
    (halive : s.alive = true →
      u.alive = true ∨ (s.told (.act env action)).filter Notice.isEnd ≠ []) :
    Decides s env action id (endTurn id q) := by
  refine ⟨fun hc => ?_, fun hc hleaves => ?_⟩
  · rw [← hsame.isCompiling_eq] at hc
    exact (leaves_endTurn hopen q).mpr (h.hidden hc)
  · rw [← hsame.isCompiling_eq] at hc
    have hgone := h.seen hc ((leaves_endTurn hopen q).mp hleaves)
    cases hs : s.alive with
    | false => exact .inl rfl
    | true =>
        rcases halive hs with hu | hends
        · exact absurd (hgone.symm.trans hu) Bool.false_ne_true
        · exact .inr hends

theorem decides_reply {goal : Goal} {reply : Except ControlError String}
    (hcall : s.call? id = some (.probing goal)) (hgoal : goal = .stop .shutdown) :
    Decides s env (.reply id reply) id (endTurn id
      (((s.without id).complete (.probing goal) (.replied reply)).carryOn env (.probing goal)
        reply)) := by
  have hopen : s.call? id ≠ some .closing := by
    rw [hcall]
    simp only [ne_eq, Option.some.injEq, reduceCtorEq, not_false_eq_true]
  have hsame : SameJobs s ((s.without id).complete (.probing goal) (.replied reply)) :=
    (sameJobs_without s id).trans (sameJobs_complete _ _ _)
  cases hgoal
  exact Parts.decides parts_resume hopen hsame (alive_or_told_reply hcall rfl reply)

/-- What every turn of a call to shut down comes to, until the engine is asked
    or the background work is told to end. -/
theorem decides_step {action : Action} {r : Supervisor × Option Outcome}
    (h : Steps env s action r) (hcaller : action.caller? = some id)
    (hpurpose : action = .begin id .shutdown ∨
      ∃ call, s.call? id = some call ∧ call.purpose = .shutdown)
    (hopen : s.call? id ≠ some .closing) (hunasked : s.call? id ≠ some (.quitting .shutdown))
    (hkept : action ≠ .abandon id) : Decides s env action id r := by
  -- The call has not asked the engine to quit, does not close and is not given up,
  -- which leaves the turns in which it is still to be decided.
  cases h with
  | begins k request hnone =>
      cases hcaller
      rcases hpurpose with heq | ⟨call, hcall, _⟩
      · cases heq
        have hparts : Parts s (s.enter env .shutdown).2 := parts_shutDown
        exact hparts.decides hopen ⟨rfl, rfl, rfl⟩ .inl
      · exact absurd (hcall.symm.trans hnone) (Option.some_ne_none call)
  | replies k reply call hcall hex =>
      cases hcaller
      have hshutdown := purpose_of_call? hcall hpurpose Action.noConfusion
      cases call with
      | probing goal => exact decides_reply hcall (stop_of_purpose hshutdown)
      | quitting after =>
          have hstop : Goal.stop after = .stop .shutdown := stop_of_purpose hshutdown
          cases hstop
          exact absurd hcall hunasked
      | waiting goal signalled => exact absurd hex Bool.false_ne_true
      | closing => exact absurd hex Bool.false_ne_true
      | _ => exact absurd hshutdown (by simp only [Call.purpose, reduceCtorEq,
          not_false_eq_true])
  | wakes k goal hcall =>
      cases hcaller
      cases stop_of_purpose (purpose_of_call? hcall hpurpose Action.noConfusion)
      exact Parts.decides parts_resume hopen (sameJobs_without s id) .inl
  | abandons k call hcall =>
      cases hcaller
      exact absurd rfl hkept
  | closes k hcall =>
      cases hcaller
      exact absurd hcall hopen
  | _ => exact absurd hcaller (by simp only [Action.caller?, reduceCtorEq, not_false_eq_true])

/-- Whoever gives a call up tells nobody anything. -/
theorem not_leaves_abandon {r : Supervisor × Option Outcome} (h : Steps env s (.abandon id) r) :
    ¬ s.Leaves id r := by
  rintro ⟨_, hover | hclosing⟩
  · cases h
    exact absurd hover (by simp only [reduceCtorEq, not_false_eq_true])
  · cases h with
    | abandons id call hcall =>
        have hgone := (Opens.completes call .dropped hcall).call?_self
        exact absurd (hclosing.symm.trans hgone) (Option.some_ne_none _)

end Supervisor

/-- The supervisor, and what calls have heard. -/
structure Vigil where
  now : Supervisor
  /-- For each call that was made while an engine was believed to be there, what
      was told since of the end of engines. -/
  heard : Nat → Option (List Notice) := fun _ => none

namespace Vigil

/-- Nothing has happened yet. -/
def start (config : Config) : Vigil :=
  { now := .initial config }

/-- An action was taken, and all calls have heard what was told. -/
def note (v : Vigil) (env : Surroundings) (action : Action) (s : Supervisor) : Vigil where
  now := s
  heard k :=
    let before := match action with
      | .begin id _ => if k = id then if v.now.alive then some [] else none else v.heard k
      | _ => v.heard k
    before.map (· ++ (v.now.told (.act env action)).filter Notice.isEnd)

/-- Something happens, if it can. -/
def see (v : Vigil) : Happening → Vigil
  | .act env action =>
    match v.now.step env action with
    | none => v
    | some r => v.note env action r.1
  | .setProject project => { v with now := v.now.setProject project }
  | .elsewhere journal jobs => { v with now := { v.now with journal, jobs } }

/-- Several things happen in order. -/
def after (v : Vigil) (happenings : List Happening) : Vigil :=
  happenings.foldl see v

variable {v : Vigil}

/-- A call that was made while an engine was believed to be there has heard of
    an end, or one is still believed to be there. -/
structure Kept (v : Vigil) : Prop where
  there : ∀ k ns, v.heard k = some ns → v.now.alive = true ∨ ns ≠ []
  ends : ∀ k ns, v.heard k = some ns → ∀ n ∈ ns, n.isEnd = true

theorem kept_start (config : Config) : (start config).Kept where
  there := fun _ _ h => absurd h (by simp only [start, reduceCtorEq, not_false_eq_true])
  ends := fun _ _ h => absurd h (by simp only [start, reduceCtorEq, not_false_eq_true])

/-- What a call has heard after an action was told in it, or heard before. -/
theorem heard_note {env : Surroundings} {action : Action} {s : Supervisor} {k : Nat}
    {ns : List Notice} (h : (v.note env action s).heard k = some ns) :
    ∃ before, ns = before ++ (v.now.told (.act env action)).filter Notice.isEnd ∧
      (v.heard k = some before ∨ v.now.alive = true ∧ before = []) := by
  rcases Option.map_eq_some_iff.mp h with ⟨before, hbefore, rfl⟩
  refine ⟨before, rfl, ?_⟩
  split at hbefore
  next id request =>
    split at hbefore
    next =>
      split at hbefore
      next halive => exact .inr ⟨halive, (Option.some.inj hbefore).symm⟩
      next => exact absurd hbefore (by simp only [reduceCtorEq, not_false_eq_true])
    next => exact .inl hbefore
  next => exact .inl hbefore

/-- Whoever was there when a call was made is there still, or the call has heard
    of an end. -/
theorem Kept.before (hv : v.Kept) {k : Nat} {before : List Notice}
    (h : v.heard k = some before ∨ v.now.alive = true ∧ before = []) :
    v.now.alive = true ∨ before ≠ [] := by
  rcases h with hheard | ⟨halive, _⟩
  · exact hv.there k before hheard
  · exact .inl halive

theorem kept_note (hv : v.Kept) {env : Surroundings} {action : Action}
    {r : Supervisor × Option Outcome} (h : Supervisor.Steps env v.now action r) :
    (v.note env action r.1).Kept := by
  refine ⟨fun k ns hns => ?_, fun k ns hns n hn => ?_⟩
  · rcases heard_note hns with ⟨before, rfl, hbefore⟩
    rcases hv.before hbefore with halive | hne
    · rcases Supervisor.alive_or_told h halive with hstill | htold
      · exact .inl hstill
      · exact .inr (List.append_ne_nil_of_right_ne_nil before htold)
    · exact .inr (List.append_ne_nil_of_left_ne_nil hne _)
  · rcases heard_note hns with ⟨before, rfl, hbefore⟩
    rcases List.mem_append.mp hn with hold | hnew
    · rcases hbefore with hheard | ⟨_, rfl⟩
      · exact hv.ends k before hheard n hold
      · exact absurd hold List.not_mem_nil
    · exact (List.mem_filter.mp hnew).2

/-- However a run goes, an engine that a call has found to be believed in is
    still believed in, or the call has heard of an end. -/
theorem kept_after (hv : v.Kept) (happenings : List Happening) : (v.after happenings).Kept := by
  induction happenings generalizing v with
  | nil => exact hv
  | cons h rest ih =>
      refine ih (v := v.see h) ?_
      cases h with
      | setProject project => exact ⟨hv.there, hv.ends⟩
      | elsewhere journal jobs => exact ⟨hv.there, hv.ends⟩
      | act env action =>
          rw [see]
          split
          next => exact hv
          next r hstep => exact kept_note hv (Supervisor.step_eq_some_iff.mp hstep)

end Vigil

/-- A call to shut down was made while an engine was believed to be there, and
    in one of its turns the background work is told to end, or found to have been
    told. Then the call has asked the engine to quit and this is the answer, or it
    has heard since it was made that an engine was lost or has acknowledged an
    order to quit, or a compilation is under way. And a turn of such a call that
    finds a compilation under way always tells the background work to end, if the
    engine was not asked before and the call is not given up. -/
theorem asked_or_gone (config : Config) (happenings : List Happening) (env : Surroundings)
    (action : Action) (id : Nat) (r : Supervisor × Option Outcome) (ns : List Notice)
    (hstep : ((Vigil.start config).after happenings).now.step env action = some r)
    (hcaller : action.caller? = some id)
    (hpurpose : action = .begin id .shutdown ∨
      ∃ call, ((Vigil.start config).after happenings).now.call? id = some call ∧
        call.purpose = .shutdown)
    (hheard : (((Vigil.start config).after happenings).note env action r.1).heard id = some ns) :
    let s := ((Vigil.start config).after happenings).now
    (s.Leaves id r → s.call? id = some (.quitting .shutdown) ∨
      (∃ n ∈ ns, n.kind = .runtimeLost ∨ n.kind = .runtimeStopped) ∨ s.isCompiling = true) ∧
    (s.isCompiling = true → s.call? id ≠ some .closing →
      s.call? id ≠ some (.quitting .shutdown) → action ≠ .abandon id → s.Leaves id r) := by
  intro s
  have hsteps : Supervisor.Steps env s action r := Supervisor.step_eq_some_iff.mp hstep
  have hkept := Vigil.kept_after (Vigil.kept_start config) happenings
  refine ⟨fun hleaves => ?_, fun hc hopen hunasked hgoes => ?_⟩
  · by_cases hasked : s.call? id = some (.quitting .shutdown)
    · exact .inl hasked
    by_cases hc : s.isCompiling = true
    · exact .inr (.inr hc)
    have hgoes : action ≠ .abandon id := by
      rintro rfl
      exact Supervisor.not_leaves_abandon hsteps hleaves
    have hdecides := Supervisor.decides_step hsteps hcaller hpurpose hleaves.1 hasked hgoes
    -- There was no engine any more when the turn began, or its end is told in the turn.
    have hsome : ns ≠ [] := by
      rcases Vigil.heard_note hheard with ⟨before, rfl, hbefore⟩
      rcases hdecides.seen (Bool.eq_false_iff.mpr hc) hleaves with hgone | htold
      · rcases hkept.before hbefore with halive | hne
        · exact absurd (hgone.symm.trans halive) Bool.false_ne_true
        · exact List.append_ne_nil_of_left_ne_nil hne _
      · exact List.append_ne_nil_of_right_ne_nil before htold
    rcases List.exists_mem_of_ne_nil ns hsome with ⟨n, hn⟩
    refine .inr (.inl ⟨n, hn, ?_⟩)
    have hend := (Vigil.kept_note hkept hsteps).ends id ns hheard n hn
    simpa [Notice.isEnd] using hend
  · exact (Supervisor.decides_step hsteps hcaller hpurpose hopen hunasked hgoes).hidden hc

/-- The engine takes a command and does not answer it in time. -/
def unanswered : ControlError :=
  .timedOut (.v4 [127, 0, 0, 1] 43628) (.ofMillis 3000)

/-- An engine is launched without a grace, and the probe that shutting down
    begins with is not answered. -/
theorem asked_or_gone_lost :
    let env : Surroundings := ⟨0, .ok none, fun _ => .ok none⟩
    let v := (Vigil.start { startupGrace := .ofMillis 0 }).after
      [.act env (.begin 0 .start), .act env (.begin 1 .shutdown)]
    ∃ r ns, v.now.step env (.reply 1 (.error unanswered)) = some r ∧
      (v.note env (.reply 1 (.error unanswered)) r.1).heard 1 = some ns ∧
      v.now.Leaves 1 r ∧ ∃ n ∈ ns, n.kind = .runtimeLost ∨ n.kind = .runtimeStopped := by
  intro env v
  let lost : Action := .reply 1 (.error unanswered)
  let r := (v.now.step env lost).get (by decide)
  let ns := ((v.note env lost r.1).heard 1).get (by decide)
  have hstep : v.now.step env lost = some r := (Option.some_get _).symm
  have hheard : (v.note env lost r.1).heard 1 = some ns := (Option.some_get _).symm
  have hleaves : v.now.Leaves 1 r := ⟨by decide, .inr (by decide)⟩
  refine ⟨r, ns, hstep, hheard, hleaves, ?_⟩
  rcases (asked_or_gone _ _ env lost 1 r ns hstep rfl (.inr ⟨_, rfl, rfl⟩) hheard).1 hleaves
    with hasked | hended | hcompiling
  · exact absurd hasked (by decide)
  · exact hended
  · exact absurd hcompiling (by decide)

/-- The order to quit is not answered before a compilation, which goes on. While
    it is under way the engine that is still believed to run is not asked again. -/
theorem not_always_asked :
    ¬ ∀ (config : Config) (happenings : List Happening) (env : Surroundings) (action : Action)
        (id : Nat) (r : Supervisor × Option Outcome) (ns : List Notice),
      let v := (Vigil.start config).after happenings
      v.now.step env action = some r → action.caller? = some id →
      (action = .begin id .shutdown ∨
        ∃ call, v.now.call? id = some call ∧ call.purpose = .shutdown) →
      (v.note env action r.1).heard id = some ns → v.now.Leaves id r →
      v.now.call? id = some (.quitting .shutdown) ∨
        ∃ n ∈ ns, n.kind = .runtimeLost ∨ n.kind = .runtimeStopped := by
  intro h
  let env : Surroundings := ⟨0, .ok none, fun _ => .ok none⟩
  let compiling : List Happening := [.act env (.begin 0 .start),
    .act env (.begin 1 (.compile [0x61])), .act env (.reply 1 (.error unanswered))]
  let v := (Vigil.start {}).after compiling
  let r := (v.now.step env (.begin 2 .shutdown)).get (by decide)
  have hstep : v.now.step env (.begin 2 .shutdown) = some r := (Option.some_get _).symm
  have hheard : (v.note env (.begin 2 .shutdown) r.1).heard 2 = some [] := by decide
  have hleaves : v.now.Leaves 2 r := ⟨by decide, .inr (by decide)⟩
  rcases h {} compiling env _ 2 r [] hstep rfl (.inl rfl) hheard hleaves
    with hasked | ⟨n, hn, _⟩
  · exact absurd hasked (by decide)
  · exact absurd hn List.not_mem_nil

end SoftPlc
