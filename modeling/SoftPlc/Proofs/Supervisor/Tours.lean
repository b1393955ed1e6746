import SoftPlc.Proofs.Supervisor.Plans

/-!
# A call that applies service settings

One call is followed from its first turn to its end, whatever else goes on:
any other calls, in any order, and any engine. What it does and comes across
is written down turn by turn, and the list that results is one of those that a
plan allows. While others go on, only two things can happen to the call. It
may be signalled, and the belief that it will find may change.

A call that has not come to an end waits for a reply, or for the probe of
another call; and after two replies for each service there is nothing left
that it could wait for. So it ends, if the engine answers it.

## Main definitions

* `Tour`: The supervisor, and what one of its calls has done.
* `Tour.Kept`: What holds of a call that applies settings.

## Theorems

* `Supervisor.Sole.attended`: Whoever waits for a probe waits for one that is
  noted.
* `Tour.fares_turned`: What a turn of the call leaves.
* `Tour.kept_after`: The induction over runs.
* `services_applied`: How settings are applied.
-/

namespace SoftPlc

namespace Supervisor

variable {s t : Supervisor} {id k : Nat} {call : Call}

/-- While another call takes its turn, a call that waits may be signalled. -/
theorem Turns.call?_other (h : s.Turns k t) (hother : id ≠ k) (hcall : s.call? id = some call) :
    t.call? id = some call ∨ t.call? id = some call.signal := by
  rcases h with ⟨u, hopen, hturn⟩
  have hopened : u.call? id = some call ∨ u.call? id = some call.signal := by
    cases hopen with
    | fresh => exact .inl hcall
    | completes own c hown =>
        have hkept : (s.without k).call? id = some call := by
          rw [call?_without, if_neg hother, hcall]
        cases hprobe : own.isProbe with
        | true => exact .inr (by rw [call?_complete_probe hprobe, hkept, Option.map_some])
        | false => exact .inl (by rw [call?_complete_other hprobe, hkept])
  rcases hturn with rfl | ⟨r, hadvance, rfl⟩
  · exact hopened
  · rw [hadvance.call?, if_neg hother]
    exact hopened

/-- Who waits without having been signalled has waited so before, and the belief
    is the same. -/
theorem Sole.opens_waiting (h : s.Sole) (hopen : s.Opens k t) {goal : Goal}
    (hwaits : t.call? id = some (.waiting goal false)) :
    s.call? id = some (.waiting goal false) ∧ t.belief = s.belief := by
  cases hopen with
  | fresh => exact ⟨hwaits, rfl⟩
  | completes own c hown =>
      cases hprobe : own.isProbe with
      | true =>
          -- The completion of a probe has signalled everybody.
          rw [call?_complete_probe hprobe] at hwaits
          rcases Option.map_eq_some_iff.mp hwaits with ⟨before, _, hsignal⟩
          cases before <;> cases hsignal
      | false =>
          rw [call?_complete_other hprobe, call?_without] at hwaits
          split at hwaits
          next => exact absurd hwaits (Option.some_ne_none _).symm
          next =>
            refine ⟨hwaits, ?_⟩
            rw [belief_complete_other hprobe, Call.settles_of_peaceful (h.purpose hown), hprobe]
            rfl

/-- A turn leaves a probe noted that is, and who begins to wait has found one. -/
theorem Advance.attended {r : Result} (h : Advance s r) {goal : Goal}
    (hwaits : (endTurn k r).1.call? id = some (.waiting goal false))
    (hbefore : s.call? id = some (.waiting goal false) → s.belief.isProbing = true) :
    (endTurn k r).1.belief.isProbing = true := by
  rw [h.call?] at hwaits
  rw [endTurn_belief]
  split at hwaits
  next =>
    cases h with
    | probes u own launch _ _ before after hprobe =>
        cases Option.some.inj hwaits
        exact absurd hprobe Bool.false_ne_true
    | joins u goal launch _ _ before after =>
        rw [after]
        rfl
    | quits u next launch => cases Option.some.inj hwaits
    | launches => exact absurd hwaits (Option.some_ne_none _).symm
    | stays u turn _ _ same hturn =>
        exact absurd (hturn _ hwaits) Bool.false_ne_true
  next =>
    rcases Belief.isProbing_iff.mp (hbefore hwaits) with ⟨there, hthere⟩
    cases h with
    | probes u own launch _ _ before => exact Belief.noConfusion (hthere.symm.trans before)
    | joins u goal launch _ _ before after =>
        rw [after]
        rfl
    | quits u next launch _ _ before => exact Belief.noConfusion (hthere.symm.trans before)
    | launches u outcome now _ _ before => exact Belief.noConfusion (hthere.symm.trans before)
    | stays u turn _ _ same =>
        rw [same, hthere]
        rfl

/-- Whoever waits for a probe, and has not been signalled, waits for one that
    is noted. -/
theorem Sole.attended (h : s.Sole) {what : Happening} (hs : s.happen what = some t)
    (hbefore : ∀ goal, s.call? id = some (.waiting goal false) → s.belief.isProbing = true)
    (goal : Goal) (hwaits : t.call? id = some (.waiting goal false)) :
    t.belief.isProbing = true := by
  rcases happen_cases hs with ⟨k, _, u, hopen, hturn⟩ | ⟨_, hcalls, hbelief, _⟩
  · have hopened : u.call? id = some (.waiting goal false) → u.belief.isProbing = true := by
      intro hu
      rcases h.opens_waiting hopen hu with ⟨hcall, hsame⟩
      rw [hsame]
      exact hbefore goal hcall
    rcases hturn with rfl | ⟨r, hadvance, rfl⟩
    · exact hopened hwaits
    · exact hadvance.attended hwaits hopened
  · rw [hbelief]
    exact hbefore goal ((call?_congr hcalls id).symm.trans hwaits)

/-- A session that no call is under way in has nothing noted that is not under way. -/
theorem sole_of_nobody (hcalls : s.calls = []) (hsettled : s.belief.isProbing = false) :
    s.Sole where
  distinct := by
    rw [hcalls]
    exact List.nodup_nil
  peaceful := fun c hc => absurd (hcalls ▸ hc) List.not_mem_nil
  count := by
    rw [probeCount, hcalls, hsettled]
    rfl

theorem lastKnown_endTurn (id : Nat) (r : Result) :
    (endTurn id r).1.lastKnown = r.1.lastKnown := by
  rcases r with ⟨u, outcome | call⟩ <;> rfl

end Supervisor

open Supervisor (Steps Hears Publishes endTurn)

/-- The supervisor, and what one of its calls has done and come across. -/
structure Tour where
  now : Supervisor
  entries : List Entry := []
  /-- What the call has come to: nothing while it lasts, and no outcome if it
      was given up. -/
  result : Option (Option Outcome) := none

namespace Tour

/-- What the call hears that an action is a turn of. -/
def hearing : Action → List Entry
  | .reply _ reply => [.hears reply]
  | _ => []

/-- The call has taken a turn. -/
def turned (w : Tour) (id : Nat) (env : Surroundings) (action : Action)
    (r : Supervisor × Option Outcome) : Tour where
  now := r.1
  entries := w.entries ++
    (hearing action ++ (w.now.told (.act env action)).map Entry.tells) ++
    [.knows r.1.lastKnown] ++ (((r.1.call? id).bind Call.exchange?).map Entry.asks).toList
  result := if (r.1.call? id).isSome then none else some r.2

/-- A call that applies settings has taken its first turn. -/
def begun (s : Supervisor) (env : Surroundings) (id : Nat) (settings : ServiceSettings) : Tour :=
  turned { now := s } id env (.begin id (.applyServices settings))
    (s.begin env id (.applyServices settings))

/-- Something happens, if it can. When the call is over nothing more is written
    down. -/
def see (w : Tour) (id : Nat) : Happening → Tour
  | .act env action =>
    match w.now.step env action with
    | none => w
    | some r =>
      if action.caller? = some id ∧ w.result = none then w.turned id env action r
      else { w with now := r.1 }
  | .setProject project => { w with now := w.now.setProject project }
  | .elsewhere journal jobs => { w with now := { w.now with journal, jobs } }

/-- Several things happen in order. -/
def after (w : Tour) (id : Nat) (happenings : List Happening) : Tour :=
  happenings.foldl (see · id) w

/-- While it lasts the call waits with a part of its plan done, and its outcome
    says what has failed. -/
structure Fares (w : Tour) (calm : Prop) (plan : List Toggle) (id : Nat) : Prop where
  waits : w.result = none → ∃ call, w.now.call? id = some call ∧
    Plan.Awaits calm plan w.entries call
  ends : ∀ outcome, w.result = some (some outcome) → ∃ failures, outcome = .applied failures ∧
    Plan.Applies calm plan w.entries failures

/-- What holds of the call. It is over without an outcome only if it is gone,
    and as long as all is calm there is a probe wherever it waits for one. -/
structure Kept (w : Tour) (calm gone : Prop) (plan : List Toggle) (id : Nat) : Prop where
  fares : w.Fares calm plan id
  dropped : w.result = some none → gone
  sole : calm → w.now.Sole
  attended : calm → ∀ goal, w.now.call? id = some (.waiting goal false) →
    w.now.belief.isProbing = true

variable {w : Tour} {env : Surroundings} {action : Action} {id : Nat} {calm gone : Prop}
  {plan : List Toggle}

/-- A turn of the call leads to where it waits, or to the end of its plan. -/
theorem fares_turned {f : Supervisor → Supervisor.Result} {u : Supervisor}
    (announced : List Notice)
    (hcomes : Plan.Comes calm plan
      (w.entries ++ (hearing action ++ announced.map Entry.tells)) f u)
    (hhears : ∀ ns, Publishes f u ns →
      Hears w.now env action (endTurn id (f u)) (announced ++ ns)) :
    (w.turned id env action (endTurn id (f u))).Fares calm plan id ∧
      (w.turned id env action (endTurn id (f u))).result ≠ some none := by
  rcases hcomes with ⟨t, turn, hon, hlands⟩
  rcases Publishes.quiet hon with ⟨hquiet, heq⟩
  have htold : w.now.told (.act env action) = announced := by
    rw [(hhears [] hquiet).told_eq, List.append_nil]
  have hself : (endTurn id (f u)).1.call? id = turn.call? := by
    rw [Supervisor.call?_endTurn_self, heq]
  have hknown : (endTurn id (f u)).1.lastKnown = t.lastKnown := by
    rw [Supervisor.lastKnown_endTurn, heq, Supervisor.lastKnown_on]
  have hentries : (w.turned id env action (endTurn id (f u))).entries
      = w.entries ++ (hearing action ++ announced.map Entry.tells) ++ [.knows t.lastKnown] ++
        ((turn.call?.bind Call.exchange?).map Entry.asks).toList := by
    rw [turned, hself, hknown, htold]
  have hresult : (w.turned id env action (endTurn id (f u))).result
      = if turn.call?.isSome then none else some (endTurn id (t.on u.journal, turn)).2 := by
    rw [turned, hself, heq]
  cases turn with
  | finished outcome =>
      refine ⟨⟨fun hwaits => ?_, fun there hthere => ?_⟩, fun hdropped => ?_⟩
      · exact absurd (hresult.symm.trans hwaits) (Option.some_ne_none _)
      · have hsame : outcome = there :=
          Option.some.inj (Option.some.inj (hresult.symm.trans hthere))
        rw [hentries, ← hsame, Turn.call?, Option.bind_none, Option.map_none, Option.toList_none,
          List.append_nil]
        exact hlands
      · exact absurd (Option.some.inj (hresult.symm.trans hdropped)) (Option.some_ne_none _)
  | waits call =>
      refine ⟨⟨fun _ => ⟨call, hself, ?_⟩, fun there hthere => ?_⟩, fun hdropped => ?_⟩
      · rw [hentries]
        exact hlands
      · exact absurd (hresult.symm.trans hthere) (Option.some_ne_none _).symm
      · exact absurd (hresult.symm.trans hdropped) (Option.some_ne_none _).symm

/-- A turn of the call, unless that is how it is given up. -/
theorem fares_step (hw : w.Fares calm plan id) (hlasts : w.result = none)
    (hsole : calm → w.now.Sole) {r : Supervisor × Option Outcome}
    (h : Steps env w.now action r) (hcaller : action.caller? = some id) :
    (w.turned id env action r).Fares calm plan id ∧
      ((w.turned id env action r).result = some none → action = .abandon id) := by
  rcases hw.waits hlasts with ⟨call, hcall, hawaits⟩
  -- The call waits, so it does not begin, and it waits for what its turn brings.
  cases h with
  | begins k request hnone =>
      cases hcaller
      exact absurd (hcall.symm.trans hnone) (Option.some_ne_none call)
  | replies k reply there hthere hex =>
      cases hcaller
      cases Option.some.inj (hcall.symm.trans hthere)
      have hnoted : calm → call.isProbe = true → (w.now.without id).belief.isProbing = true :=
        fun hcalm hprobe => (hsole hcalm).isProbing hcall hprobe
      rcases fares_turned _ (Plan.comes_reply hawaits hex hnoted reply)
        fun ns hns => Supervisor.hears_reply hcall hex hns with ⟨hfares, hresult⟩
      exact ⟨hfares, fun hdropped => absurd hdropped hresult⟩
  | wakes k goal hthere =>
      cases hcaller
      cases Option.some.inj (hcall.symm.trans hthere)
      have hcomes : Plan.Comes calm plan (w.entries ++ ([] ++ [].map Entry.tells))
          (fun s => s.resume env goal s.lastKnown) (w.now.without id) := by
        rw [List.map_nil, List.append_nil, List.append_nil]
        exact Plan.comes_wake hawaits
      rcases fares_turned [] hcomes fun ns hns => Supervisor.hears_wake hthere hns with
        ⟨hfares, hresult⟩
      exact ⟨hfares, fun hdropped => absurd hdropped hresult⟩
  | abandons k there hthere =>
      cases hcaller
      have hgone : ((w.now.without id).complete there .dropped).call? id = none :=
        (Supervisor.Opens.completes there .dropped hthere).call?_self
      have hresult : (w.turned id env (.abandon id)
          ((w.now.without id).complete there .dropped, none)).result = some none := by
        rw [turned, hgone]
        rfl
      refine ⟨⟨fun hwaits => ?_, fun outcome houtcome => ?_⟩, fun _ => rfl⟩
      · exact absurd (hresult.symm.trans hwaits) (Option.some_ne_none _)
      · exact absurd (Option.some.inj (hresult.symm.trans houtcome)).symm (Option.some_ne_none _)
  | closes k hthere =>
      cases hcaller
      cases Option.some.inj (hcall.symm.trans hthere)
      exact absurd rfl hawaits.ne_closing
  | _ => exact absurd hcaller (Option.some_ne_none _).symm

/-- While something else goes on, the call waits as it did. -/
theorem fares_elsewhere (hw : w.Fares calm plan id) {h : Happening} {t : Supervisor}
    (hs : w.now.happen h = some t) (hother : h.caller? ≠ some id ∨ w.result ≠ none) :
    Fares { w with now := t } calm plan id := by
  refine ⟨fun hlasts => ?_, hw.ends⟩
  rcases hw.waits hlasts with ⟨call, hcall, hawaits⟩
  rcases Supervisor.happen_cases hs with ⟨k, hk, hturns⟩ | ⟨_, hcalls, _, _⟩
  · have hne : id ≠ k := by
      rintro rfl
      exact hother.elim (fun hno => hno hk) fun hno => hno hlasts
    rcases hturns.call?_other hne hcall with hsame | hsignal
    · exact ⟨call, hsame, hawaits⟩
    · exact ⟨call.signal, hsignal, hawaits.signal⟩
  · exact ⟨call, (Supervisor.call?_congr hcalls id).trans hcall, hawaits⟩

theorem kept_elsewhere (hw : w.Kept calm gone plan id) {h : Happening} {t : Supervisor}
    (hs : w.now.happen h = some t) (hother : h.caller? ≠ some id ∨ w.result ≠ none)
    (hcalm : calm → h.isPeaceful = true) : Kept { w with now := t } calm gone plan id where
  fares := fares_elsewhere hw.fares hs hother
  dropped := hw.dropped
  sole := fun hc => (hw.sole hc).happen (hcalm hc) hs
  attended := fun hc => (hw.sole hc).attended hs (hw.attended hc)

/-- Whatever happens, the call is on its plan. What others do can only signal it
    or change what it will find. -/
theorem kept_see (hw : w.Kept calm gone plan id) {h : Happening}
    (hcalm : calm → h.isPeaceful = true)
    (hgone : ∀ env, h = .act env (.abandon id) → gone) : (w.see id h).Kept calm gone plan id := by
  cases h with
  | setProject project =>
      have hother : (Happening.setProject project).caller? ≠ some id :=
        (Option.some_ne_none id).symm
      exact kept_elsewhere hw rfl (.inl hother) hcalm
  | elsewhere journal jobs =>
      have hother : (Happening.elsewhere journal jobs).caller? ≠ some id :=
        (Option.some_ne_none id).symm
      exact kept_elsewhere hw rfl (.inl hother) hcalm
  | act env action =>
      rw [see]
      cases hstep : w.now.step env action with
      | none => exact hw
      | some r =>
          have hs : w.now.happen (.act env action) = some r.1 := by
            rw [Supervisor.happen, hstep]
            rfl
          dsimp only
          split
          next hown =>
            have hsteps := Supervisor.step_eq_some_iff.mp hstep
            rcases fares_step hw.fares hown.2 hw.sole hsteps hown.1 with ⟨hfares, hdropped⟩
            exact ⟨hfares, fun hresult => hgone env (congrArg _ (hdropped hresult)),
              fun hc => (hw.sole hc).happen (hcalm hc) hs,
              fun hc => (hw.sole hc).attended hs (hw.attended hc)⟩
          next hnot =>
            refine kept_elsewhere hw hs ?_ hcalm
            exact not_and_or.mp hnot

/-- Whatever else goes on, the call fares as its plan says. -/
theorem kept_after (hw : w.Kept calm gone plan id) {happenings : List Happening}
    (hcalm : calm → ∀ h ∈ happenings, h.isPeaceful = true)
    (hgone : ∀ env, .act env (.abandon id) ∈ happenings → gone) :
    (w.after id happenings).Kept calm gone plan id := by
  induction happenings generalizing w with
  | nil => exact hw
  | cons h rest ih =>
      refine ih (kept_see hw (fun hc => hcalm hc h List.mem_cons_self) ?_)
        (fun hc there hmem => hcalm hc there (List.mem_cons_of_mem h hmem))
        fun env hmem => hgone env (List.mem_cons_of_mem h hmem)
      rintro env rfl
      exact hgone env List.mem_cons_self

theorem kept_begun {s : Supervisor} (env : Surroundings) (settings : ServiceSettings)
    (hnone : s.call? id = none) (hsole : calm → s.Sole) :
    (begun s env id settings).Kept calm gone (settings.toList.map Toggle.ofSetting) id := by
  have hstep : s.happen (.act env (.begin id (.applyServices settings)))
      = some (s.begin env id (.applyServices settings)).1 :=
    congrArg (Option.map Prod.fst)
      (Supervisor.step_eq_some_iff.mpr (.begins id (.applyServices settings) hnone))
  have hcomes : Plan.Comes calm (settings.toList.map Toggle.ofSetting)
      (({ now := s } : Tour).entries ++ ([] ++ [].map Entry.tells))
      (Supervisor.enter env (.applyServices settings)) s := Plan.comes_enter settings
  rcases fares_turned (w := { now := s }) [] hcomes
    fun ns hns => Supervisor.hears_begin hnone hns with ⟨hfares, hresult⟩
  exact ⟨hfares, fun hdropped => absurd hdropped hresult,
    fun hc => (hsole hc).happen rfl hstep,
    fun hc => (hsole hc).attended hstep fun goal hcall =>
      absurd (hcall.symm.trans hnone) (Option.some_ne_none _)⟩

end Tour

/-- Settings are applied in any session, whatever else goes on. When the call
    ends, its outcome is the list of the services that have failed, in the order
    of the plan. The engine was asked for a first part of the plan, once for each
    toggle and in order, each time when it was found running, and each reply was
    told of in one notice. If the engine was not found running for a toggle, this
    one and all behind it have failed for that reason, with nothing asked but the
    probe and nothing told but that the probe has lost the engine. Unless
    somebody orders the engine to quit, a probe that fails is such a case. Until
    it ends the call waits for the reply to what it has asked last, or for the
    probe of another call, and it never hears more than eight replies. -/
theorem services_applied (s : Supervisor) (env : Surroundings) (id : Nat)
    (settings : ServiceSettings) (hnone : s.call? id = none) (run : List Happening) :
    let w := (Tour.begun s env id settings).after id run
    let calm := s.Sole ∧ ∀ h ∈ run, h.isPeaceful = true
    (∀ outcome, w.result = some (some outcome) → ∃ failures, outcome = .applied failures ∧
      Plan.Applies calm (settings.toList.map Toggle.ofSetting) w.entries failures) ∧
    (w.result = some none → ∃ env, .act env (.abandon id) ∈ run) ∧
    (w.result = none → w.entries.countP Entry.isReply < 8 ∧
      ∃ call, w.now.call? id = some call ∧
        ((∃ command, call.exchange? = some command ∧
            w.entries.getLast? = some (.asks command)) ∨
          ∃ goal signalled, call = .waiting goal signalled ∧
            (calm → signalled = false → w.now.belief.isProbing = true))) := by
  intro w calm
  have hbegun : (Tour.begun s env id settings).Kept calm
      (∃ env, .act env (.abandon id) ∈ run) (settings.toList.map Toggle.ofSetting) id :=
    Tour.kept_begun env settings hnone And.left
  have hw := Tour.kept_after hbegun And.right fun env hmem => ⟨env, hmem⟩
  refine ⟨hw.fares.ends, hw.dropped, fun hlasts => ?_⟩
  rcases hw.fares.waits hlasts with ⟨call, hcall, hawaits⟩
  have height : 2 * (settings.toList.map Toggle.ofSetting).length = 8 := rfl
  refine ⟨Nat.lt_of_lt_of_eq hawaits.replies height, call, hcall, ?_⟩
  cases call with
  | waiting goal signalled =>
      refine .inr ⟨goal, signalled, rfl, fun hcalm hsilent => ?_⟩
      exact hw.attended hcalm goal (hsilent ▸ hcall)
  | closing => exact absurd rfl hawaits.ne_closing
  | _ => exact .inl ⟨_, rfl, hawaits.getLast?_entries rfl⟩

/-- An engine that runs answers a probe and starts one service. It does not
    answer the next probe, and is not asked again. -/
theorem services_applied_lost :
    let address : Address := .v4 [127, 0, 0, 1] 43628
    let env : Surroundings := ⟨9, .ok none, fun _ => .ok none⟩
    let s : Supervisor :=
      { Supervisor.initial { startupGrace := .ofMillis 0 } with belief := .running ⟨0, 7⟩ }
    let settings : ServiceSettings := { modbus := some 502, enip := some 44818 }
    let run : List Happening := [.ok "12", .ok "", .error (.unreachable address "refused")].map
      fun reply => .act env (.reply 0 reply)
    let w := (Tour.begun s env 0 settings).after 0 run
    s.call? 0 = none ∧ (s.Sole ∧ ∀ h ∈ run, h.isPeaceful = true) ∧
      Plan.Applies (s.Sole ∧ ∀ h ∈ run, h.isPeaceful = true)
        (settings.toList.map Toggle.ofSetting) w.entries
        [(.dnp3, .notRunning), (.enip, .notRunning), (.pstorage, .notRunning)] := by
  intro address env s settings run w
  have hnone : s.call? 0 = none := by decide
  have hsole : s.Sole := Supervisor.sole_of_nobody rfl rfl
  have hpeaceful : ∀ h ∈ run, h.isPeaceful = true := by
    intro h hmem
    rcases List.mem_map.mp hmem with ⟨reply, _, rfl⟩
    rfl
  have hresult : w.result = some (some (.applied
      [(.dnp3, .notRunning), (.enip, .notRunning), (.pstorage, .notRunning)])) := by
    decide +kernel
  rcases (services_applied s env 0 settings hnone run).1 _ hresult with
    ⟨failures, hfailures, happlies⟩
  cases hfailures
  exact ⟨hnone, ⟨hsole, hpeaceful⟩, happlies⟩

end SoftPlc
