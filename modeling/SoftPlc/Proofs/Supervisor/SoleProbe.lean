import SoftPlc.Proofs.Supervisor.Admission
import SoftPlc.Proofs.Supervisor.Alone
import SoftPlc.Proofs.Supervisor.Hearing
import SoftPlc.Proofs.Supervisor.Probes
import SoftPlc.Proofs.Supervisor.Purposes

/-!
# One probe at a time

A probe is noted when it is sent, and while it is noted no other is sent. That
the note and the probe belong together is still not true of all runs: an order
to quit takes the note away and leaves the probe under way, and the engine may
be launched and probed again before the first probe is over. So this is about
calls that do not stop the engine. `Sole` counts the probes that are under
way, and as long as only such calls are made there is one while one is noted
and there is none otherwise.

The count needs a beginning. With no call under way there is no probe, and
none is noted, whatever has happened before: `attended_after`. From there on
each turn opens with the end of at most one probe and goes on to at most one
other, and both are seen in the belief.

`Patrol` writes down what the belief is compared with: each launch with the
time that the host had, each probe that failed, and each notice that an engine
is lost. A notice is published for a probe that fails while a probe is noted,
in any run, and therefore for every probe that fails where each is noted.

## Main definitions

* `Purpose.isPeaceful`: What a call may be made for that does not stop the
  engine.
* `Supervisor.probeCount`: How many probes are under way.
* `Supervisor.Sole`: A probe is under way exactly while it is noted.
* `Patrol`: The supervisor, with what is written down of launches and probes.
* `Patrol.Dated`: The launch that is believed in is the latest.

## Theorems

* `Sole.opens`, `Sole.advances`, `Sole.happen`: What keeps the count.
* `dates_law`, `Patrol.dated_after`: Launches are dated when they happen.
* `lost_told`: For which probes the engine is lost.
* `single_probe_flight`: What follows for callers.
-/

namespace SoftPlc

/-- A call for this purpose neither stops the engine nor compiles. -/
def Purpose.isPeaceful : Purpose → Bool
  | stop => false
  | compile _ => false
  | shutdown => false
  | _ => true

/-- It is no call, or a call that neither stops the engine nor compiles. -/
def Happening.isPeaceful : Happening → Bool
  | act _ (.begin _ request) => request.purpose.isPeaceful
  | _ => true

/-- A probe is noted. -/
def Belief.isProbing : Belief → Bool
  | probing _ => true
  | _ => false

/-- A belief that notes a probe says which launch it is about. -/
theorem Belief.isProbing_iff {b : Belief} :
    b.isProbing = true ↔ ∃ launch, b = .probing launch := by
  cases b with
  | stopped => simp [isProbing]
  | running launch => simp [isProbing]
  | probing launch => simp [isProbing]

namespace Call

theorem isProbe_signal (call : Call) : call.signal.isProbe = call.isProbe := by
  cases call <;> rfl

/-- Whoever is peaceful and reaches the belief does so with a probe. -/
theorem settles_of_peaceful {call : Call} (h : call.purpose.isPeaceful = true) :
    call.settles = call.isProbe := by
  cases call with
  | quitting after => cases after <;> exact absurd h Bool.false_ne_true
  | _ => rfl

end Call

namespace Supervisor

variable {s t : Supervisor} {env : Surroundings} {id : Nat}

/-- How many liveness probes are under way. -/
def probeCount (s : Supervisor) : Nat :=
  s.calls.countP fun c => c.2.isProbe

/-- Without one of its calls a list of calls has one probe less, if that was one. -/
theorem countP_without (calls : List (Nat × Call)) (hdistinct : (calls.map Prod.fst).Nodup)
    (id : Nat) :
    calls.countP (fun c => c.2.isProbe)
      = (calls.filter fun c => c.1 != id).countP (fun c => c.2.isProbe)
        + if (calls.lookup id).any Call.isProbe then 1 else 0 := by
  induction calls with
  | nil => rfl
  | cons c rest ih =>
      rcases c with ⟨i, call⟩
      rw [List.map_cons, List.nodup_cons] at hdistinct
      rw [lookup_cons_eq, List.countP_cons]
      by_cases hid : i = id
      · -- There is no other call of that number.
        have hothers : rest.filter (fun c => c.1 != id) = rest := by
          refine List.filter_eq_self.mpr fun c hc => bne_iff_ne.mpr fun heq => hdistinct.1 ?_
          exact List.mem_map.mpr ⟨c, hc, heq.trans hid.symm⟩
        rw [List.filter_cons_of_neg (by simp [hid]), hothers, if_pos hid.symm, Option.any_some]
      · rw [List.filter_cons_of_pos (by simp [hid]), List.countP_cons, if_neg (Ne.symm hid),
          ih hdistinct.2]
        omega

/-- All calls are peaceful, and a probe is under way exactly while one is
    noted. -/
structure Sole (s : Supervisor) : Prop where
  distinct : (s.calls.map Prod.fst).Nodup
  peaceful : ∀ c ∈ s.calls, c.2.purpose.isPeaceful = true
  count : s.probeCount = if s.belief.isProbing then 1 else 0

theorem Sole.of_same (h : s.Sole) (hcalls : t.calls = s.calls) (hbelief : t.belief = s.belief) :
    t.Sole := by
  refine ⟨?_, ?_, ?_⟩
  · rw [hcalls]
    exact h.distinct
  · rw [hcalls]
    exact h.peaceful
  · rw [probeCount, hcalls, hbelief]
    exact h.count

theorem mem_of_call? {call : Call} (h : s.call? id = some call) : (id, call) ∈ s.calls := by
  rcases List.lookup_eq_some_iff.mp h with ⟨before, behind, heq, _⟩
  rw [heq]
  exact List.mem_append_right before List.mem_cons_self

/-- No call that is under way stops the engine or compiles. -/
theorem Sole.purpose (h : s.Sole) {call : Call} (hcall : s.call? id = some call) :
    call.purpose.isPeaceful = true :=
  h.peaceful _ (mem_of_call? hcall)

/-- A probe that is under way is noted. -/
theorem Sole.isProbing (h : s.Sole) {call : Call} (hcall : s.call? id = some call)
    (hprobe : call.isProbe = true) : s.belief.isProbing = true := by
  have hpos : 0 < s.probeCount :=
    List.countP_pos_iff.mpr ⟨(id, call), mem_of_call? hcall, hprobe⟩
  rw [h.count] at hpos
  by_contra hno
  rw [if_neg hno] at hpos
  exact absurd hpos (Nat.lt_irrefl 0)

/-- A call less leaves the others apart and peaceful. -/
theorem Sole.without (h : s.Sole) (id : Nat) :
    ((s.without id).calls.map Prod.fst).Nodup ∧
      ∀ c ∈ (s.without id).calls, c.2.purpose.isPeaceful = true :=
  ⟨h.distinct.sublist (List.filter_sublist.map Prod.fst),
    fun c hc => h.peaceful c (List.mem_of_mem_filter hc)⟩

theorem calls_complete_probe {call : Call} (hprobe : call.isProbe = true) (c : Completion) :
    (s.complete call c).calls = s.calls.map fun c => (c.1, c.2.signal) := by
  rw [complete_probe hprobe]
  rfl

theorem calls_complete_other {call : Call} (hprobe : call.isProbe = false) (c : Completion) :
    (s.complete call c).calls = s.calls := by
  rw [complete_other hprobe]

/-- Without a call there is one probe less, if the call was for one. -/
theorem Sole.probeCount_without (h : s.Sole) {call : Call} (hcall : s.call? id = some call) :
    s.probeCount = (s.without id).probeCount + if call.isProbe then 1 else 0 := by
  have hcount := countP_without s.calls h.distinct id
  rw [show s.calls.lookup id = some call from hcall, Option.any_some] at hcount
  exact hcount

/-- The end of a probe is the end of the one that was noted. -/
theorem Sole.completes_probe (h : s.Sole) {call : Call} (hcall : s.call? id = some call)
    (hprobe : call.isProbe = true) (c : Completion) : ((s.without id).complete call c).Sole := by
  have hcalls := calls_complete_probe (s := s.without id) hprobe c
  have hover : ((s.without id).complete call c).belief.isProbing = false := by
    refine Bool.eq_false_iff.mpr fun hnoted => ?_
    rcases Belief.isProbing_iff.mp hnoted with ⟨launch, hlaunch⟩
    exact complete_probe_ne_probing hprobe c launch hlaunch
  have hnone : (s.without id).probeCount = 0 := by
    have hcount := h.probeCount_without hcall
    rw [h.count, if_pos (h.isProbing hcall hprobe), hprobe, if_pos rfl] at hcount
    exact Nat.succ.inj hcount.symm
  have hsignal : ((fun c : Nat × Call => c.2.isProbe) ∘ fun c => (c.1, c.2.signal))
      = fun c : Nat × Call => c.2.isProbe := funext fun c => Call.isProbe_signal c.2
  rcases h.without id with ⟨hdistinct, hpeaceful⟩
  refine ⟨?_, fun d hd => ?_, ?_⟩
  · rw [hcalls, List.map_map]
    exact hdistinct
  · rw [hcalls] at hd
    rcases List.mem_map.mp hd with ⟨before, hmem, rfl⟩
    exact (congrArg Purpose.isPeaceful (Call.purpose_signal before.2)).trans
      (hpeaceful before hmem)
  · rw [probeCount, hcalls, List.countP_map, hsignal, hover, if_neg Bool.false_ne_true]
    exact hnone

/-- No other completion of a peaceful call reaches the belief. -/
theorem Sole.completes_other (h : s.Sole) {call : Call} (hcall : s.call? id = some call)
    (hprobe : call.isProbe = false) (c : Completion) : ((s.without id).complete call c).Sole := by
  have hcalls := calls_complete_other (s := s.without id) hprobe c
  have hbelief : ((s.without id).complete call c).belief = s.belief := by
    rw [belief_complete_other hprobe, Call.settles_of_peaceful (h.purpose hcall), hprobe]
    rfl
  rcases h.without id with ⟨hdistinct, hpeaceful⟩
  refine ⟨?_, ?_, ?_⟩
  · rw [hcalls]
    exact hdistinct
  · rw [hcalls]
    exact hpeaceful
  · have hcount := h.probeCount_without hcall
    rw [h.count, hprobe, if_neg Bool.false_ne_true, Nat.add_zero] at hcount
    rw [probeCount, hcalls, hbelief, hcount]
    rfl

/-- A turn opens with the end of its call's probe, which was the noted one, or
    leaves note and probes alone. -/
theorem Sole.opens (h : s.Sole) (hopen : s.Opens id t) : t.Sole := by
  cases hopen with
  | fresh => exact h
  | completes call c hcall =>
      cases hprobe : call.isProbe with
      | true => exact h.completes_probe hcall hprobe c
      | false => exact h.completes_other hcall hprobe c

theorem calls_endTurn_of_none {r : Result} (hcalls : r.1.calls = s.calls)
    (hnone : s.call? id = none) :
    (endTurn id r).1.calls = s.calls ++ (r.2.call?.map fun call => (id, call)).toList := by
  have hwithout : (r.1.without id).calls = s.calls := by
    have hsame := without_of_none (s := r.1) ((call?_congr hcalls id).trans hnone)
    rw [hsame, hcalls]
  rcases r with ⟨u, outcome | call⟩
  · rw [Turn.call?, Option.map_none, Option.toList_none, List.append_nil]
    exact hwithout
  · exact congrArg (· ++ [(id, call)]) hwithout

/-- The turn's own call has not waited before. -/
theorem nodup_endTurn {r : Result} (hdistinct : (s.calls.map Prod.fst).Nodup)
    (hcalls : r.1.calls = s.calls) (hnone : s.call? id = none) :
    ((endTurn id r).1.calls.map Prod.fst).Nodup := by
  rw [calls_endTurn_of_none hcalls hnone, List.map_append]
  cases r.2.call? with
  | none => simpa using hdistinct
  | some call =>
      have hsingle : [id].Nodup := List.pairwise_singleton _ id
      refine List.nodup_append.mpr ⟨hdistinct, hsingle, fun i hi k hk heq => ?_⟩
      rcases List.mem_map.mp hi with ⟨c, hc, rfl⟩
      have hne := List.lookup_eq_none_iff.mp hnone c hc
      rw [heq, List.mem_singleton.mp hk] at hne
      simp at hne

theorem probeCount_endTurn {r : Result} (hcalls : r.1.calls = s.calls)
    (hnone : s.call? id = none) : (endTurn id r).1.probeCount
      = s.probeCount + if r.2.call?.any Call.isProbe then 1 else 0 := by
  rw [probeCount, calls_endTurn_of_none hcalls hnone, List.countP_append, probeCount]
  congr 1
  cases hturn : r.2.call? with
  | none => rfl
  | some call => cases hprobe : call.isProbe <;> simp [hprobe]

/-- A turn notes the probe that it waits for, and takes no note away. -/
theorem Advance.isProbing {r : Result} (h : Advance s r) :
    (if r.1.belief.isProbing then 1 else 0)
      = (if s.belief.isProbing then 1 else 0) + if r.2.call?.any Call.isProbe then 1 else 0 := by
  cases h with
  | probes u call launch _ _ before after hprobe =>
      rw [before, after, Turn.call?, Option.any_some, hprobe]
      rfl
  | joins u goal launch _ _ before after =>
      rw [before, after]
      rfl
  | quits u next launch _ _ before after =>
      rw [before, after]
      rfl
  | launches u outcome now _ _ before after =>
      rw [before, after]
      rfl
  | stays u turn _ _ same hturn =>
      have hno : turn.call?.any Call.isProbe = false := by
        cases hc : turn.call? with
        | none => rfl
        | some call =>
            have hbystander := hturn call hc
            cases call with
            | asking => exact absurd hbystander Bool.false_ne_true
            | probing goal => exact absurd hbystander Bool.false_ne_true
            | _ => rfl
      rw [same, hno, if_neg Bool.false_ne_true, Nat.add_zero]

/-- A turn that serves a peaceful purpose goes on to a probe and notes it, or
    leaves note and probes alone. -/
theorem Sole.advances {r : Result} {purpose : Purpose} (h : s.Sole) (hnone : s.call? id = none)
    (hadvance : Advance s r) (hserves : r.2.Serves purpose)
    (hpeaceful : purpose.isPeaceful = true) : (endTurn id r).1.Sole := by
  have hcall : ∀ call, r.2.call? = some call → call.purpose.isPeaceful = true := by
    intro call hcall
    rcases r with ⟨u, outcome | other⟩
    · exact absurd hcall (by simp only [Turn.call?, reduceCtorEq, not_false_eq_true])
    · rw [← Option.some.inj hcall, show other.purpose = purpose from hserves]
      exact hpeaceful
  refine ⟨nodup_endTurn h.distinct hadvance.calls hnone, fun c hc => ?_, ?_⟩
  · rw [calls_endTurn_of_none hadvance.calls hnone] at hc
    rcases List.mem_append.mp hc with hc | hc
    · exact h.peaceful c hc
    · rcases Option.map_eq_some_iff.mp (Option.mem_toList.mp hc) with ⟨call, hturn, rfl⟩
      exact hcall call hturn
  · rw [probeCount_endTurn hadvance.calls hnone, endTurn_belief, h.count, hadvance.isProbing]

/-- Whatever peaceful happens, a probe is under way exactly while one is
    noted. -/
theorem Sole.happen (h : s.Sole) {what : Happening} (hpeaceful : what.isPeaceful = true)
    (hs : s.happen what = some t) : t.Sole := by
  cases what with
  | setProject project => exact Option.some.inj hs ▸ h.of_same rfl rfl
  | elsewhere journal jobs => exact Option.some.inj hs ▸ h.of_same rfl rfl
  | act env action =>
      rcases Option.map_eq_some_iff.mp hs with ⟨r, hstep, rfl⟩
      cases step_eq_some_iff.mp hstep with
      | begins id request hnone =>
          exact h.advances hnone (advance_enter request) (serves_enter request) hpeaceful
      | replies id reply call hcall hex =>
          have hopen : s.Opens id _ := .completes call (.replied reply) hcall
          exact (h.opens hopen).advances hopen.call?_self (advance_carryOn hex reply)
            (serves_carryOn call reply) (h.purpose hcall)
      | wakes id goal hcall =>
          have hopen : s.Opens id (s.without id) := .completes (.waiting goal true) .dropped hcall
          exact (h.opens hopen).advances hopen.call?_self (advance_resume goal)
            (serves_resume goal _) (h.purpose hcall)
      | abandons id call hcall => exact h.opens (.completes call .dropped hcall)
      | closes id hcall => exact h.opens (.completes .closing .dropped hcall)
      | takes => exact h.of_same rfl rfl
      | writes => exact h.of_same rfl rfl
      | compilerExits => exact h.of_same rfl rfl
      | engineExits => exact h.of_same rfl rfl

/-- The engine is launched at the present time, and no other launch is made
    up. -/
def Dates (env : Surroundings) (s : Supervisor) (r : Result) : Prop :=
  (r.1.engines.length = s.engines.length ∧
      ∀ launch, r.1.belief.launch? = some launch → s.belief.launch? = some launch) ∨
    r.1.engines.length = s.engines.length + 1 ∧
      r.1.belief = .running ⟨s.engines.length, env.now⟩

/-- A turn that launches nothing and changes no belief changes no date. -/
theorem Dates.still {turn : Turn} (hengines : t.engines = s.engines)
    (hbelief : t.belief = s.belief) : Dates env s (t, turn) :=
  .inl ⟨congrArg List.length hengines, fun _ hl => hbelief ▸ hl⟩

theorem dates_compileNow (source : List UInt8) : Dates env s (s.compileNow env source) := by
  rw [compileNow_eq]
  split
  next => exact .still rfl rfl
  next =>
    split
    next =>
      unfold spawnCompiler
      split
      next => exact .still rfl rfl
      next => exact .still rfl rfl
    next =>
      unfold spawnCompiler
      split
      next => exact .still rfl rfl
      next => exact .still rfl rfl

/-- Whatever a turn is made of, it dates the launch that it makes. -/
theorem dates_law (env : Surroundings) : TurnLaw env true fun f s => Dates env s (f s) where
  comesTo := by
    intro f g s h heq
    have hsame : f s = g s := heq s.journal
    rw [hsame]
    exact h
  finishes := fun _ _ => .still rfl rfl
  pauses := fun _ _ _ => .still rfl rfl
  probes := by
    intro s call launch hb _ _
    refine .inl ⟨rfl, fun there hl => ?_⟩
    rw [hb]
    exact hl
  joins := fun _ _ _ _ => .still rfl rfl
  quits := fun _ _ _ => .still rfl rfl
  launches := by
    intro s _ _
    unfold launch
    split
    next => exact .still rfl rfl
    next => exact .inr ⟨List.length_append, rfl⟩
  compiles := fun _ source _ => dates_compileNow source
  closes := fun _ _ => .still rfl rfl
  announces := fun _ _ h => h

/-- The launch that was made when something happened, with the time at which
    it happened. -/
def launchesMade (s t : Supervisor) : Happening → List Launch
  | .act env _ => if s.engines.length < t.engines.length then [⟨s.engines.length, env.now⟩] else []
  | _ => []

/-- The launch that is believed in is the one that was made, or was believed
    in before. -/
def Datable (s t : Supervisor) (h : Happening) : Prop :=
  ∀ launch, t.belief.launch? = some launch →
    s.launchesMade t h = [launch] ∨ (s.launchesMade t h = [] ∧ s.belief.launch? = some launch)

theorem datable_of_still {h : Happening} (hengines : t.engines.length = s.engines.length)
    (hbelief : ∀ launch, t.belief.launch? = some launch → s.belief.launch? = some launch) :
    s.Datable t h := by
  refine fun launch hl => .inr ⟨?_, hbelief launch hl⟩
  unfold launchesMade
  split
  next => exact if_neg (by omega)
  next => rfl

theorem Dates.datable {u : Supervisor} {action : Action} {r : Result} (h : Dates env u r)
    (hengines : u.engines = s.engines)
    (hbelief : ∀ launch, u.belief.launch? = some launch → s.belief.launch? = some launch) :
    s.Datable (endTurn id r).1 (.act env action) := by
  rcases h with ⟨hsame, hkept⟩ | ⟨hmore, hnew⟩
  · refine datable_of_still ?_ fun launch hl => ?_
    · rw [endTurn_engines, hsame, hengines]
    · rw [endTurn_belief] at hl
      exact hbelief launch (hkept launch hl)
  · refine fun launch hl => .inl ?_
    rw [endTurn_belief, hnew, hengines] at hl
    rw [launchesMade, endTurn_engines, hmore, hengines, if_pos (Nat.lt_succ_self _)]
    exact congrArg (fun l => [l]) (Option.some.inj hl)

/-- Whatever happens, the launch that is believed in has its date. -/
theorem datable_happen {h : Happening} (hs : s.happen h = some t) : s.Datable t h := by
  cases h with
  | setProject project => exact Option.some.inj hs ▸ datable_of_still rfl fun _ hl => hl
  | elsewhere journal jobs => exact Option.some.inj hs ▸ datable_of_still rfl fun _ hl => hl
  | act env action =>
      rcases Option.map_eq_some_iff.mp hs with ⟨r, hstep, rfl⟩
      have hlaw := dates_law env
      cases step_eq_some_iff.mp hstep with
      | begins id request hnone =>
          exact (hlaw.enter request fun _ => rfl).datable rfl fun _ hl => hl
      | replies id reply call hcall hex =>
          exact (hlaw.carryOn hex (fun _ => rfl) reply).datable (engines_complete call _)
            fun _ hl => launch?_complete (s := s.without id) hl
      | wakes id goal hcall =>
          exact (hlaw.resume goal (fun _ => rfl) (s := s.without id)).datable rfl fun _ hl => hl
      | abandons id call hcall =>
          exact datable_of_still (congrArg List.length (engines_complete call .dropped))
            fun _ hl => launch?_complete (s := s.without id) hl
      | closes => exact datable_of_still rfl fun _ hl => hl
      | takes => exact datable_of_still rfl fun _ hl => hl
      | writes => exact datable_of_still rfl fun _ hl => hl
      | compilerExits => exact datable_of_still rfl fun _ hl => hl
      | engineExits => exact datable_of_still List.length_set fun _ hl => hl

end Supervisor

/-- The notice is that an engine is lost. -/
def Notice.isLost (n : Notice) : Bool :=
  n.kind == .runtimeLost

/-- The reason for which a probe has failed, if that is what happens. -/
def Supervisor.failure (s : Supervisor) : Happening → List String
  | .act _ (.reply id (.error e)) => if (s.call? id).any Call.isProbe then [e.text] else []
  | _ => []

/-- The notice that an engine is lost for a reason. -/
def Notice.lostFor (reason : String) : Notice :=
  { kind := .runtimeLost, reason := some reason }

namespace Supervisor

variable {s t : Supervisor} {env : Surroundings} {id : Nat}

/-- That an engine is lost is about its life. -/
theorem filter_isLost (ns : List Notice) :
    (ns.filter Notice.isLife).filter Notice.isLost = ns.filter Notice.isLost := by
  rw [List.filter_filter]
  refine List.filter_congr fun n _ => ?_
  cases hlost : n.isLost with
  | false => rfl
  | true =>
      have hkind : n.kind = .runtimeLost := eq_of_beq hlost
      rw [Notice.isLife, hkind]
      rfl

theorem filter_isLost_of_quiet {ns : List Notice} (h : ns.filter Notice.isLife = []) :
    ns.filter Notice.isLost = [] := by
  rw [← filter_isLost, h]
  rfl

/-- What a turn goes on to do loses no engine. -/
theorem filter_isLost_of_reports {before after : List EngineProcess} {ns : List Notice}
    (h : Reports before after ns) : ns.filter Notice.isLost = [] := by
  rcases h with ⟨_, hquiet⟩ | ⟨pid, _, hloud⟩
  · exact filter_isLost_of_quiet hquiet
  · rw [← filter_isLost, hloud]
    rfl

theorem filter_isLost_announces {call : Call} (reply : Except ControlError String) :
    (s.announces call (.replied reply)).filter Notice.isLost
      = if call.isProbe then s.verdict reply else [] := by
  cases hprobe : call.isProbe with
  | true =>
      rw [announces_probe hprobe, if_pos rfl]
      unfold verdict
      split
      next => rfl
      next => rfl
  | false =>
      rw [if_neg Bool.false_ne_true]
      cases call with
      | asking => exact absurd hprobe.symm Bool.false_ne_true
      | probing goal => exact absurd hprobe.symm Bool.false_ne_true
      | quitting next => cases reply <;> rfl
      | toggling errand => exact filter_isLost_of_quiet (isLife_announces rfl _)
      | _ => rfl

/-- What a turn opens with loses an engine if a probe has failed that was noted. -/
theorem lost_reply {call : Call} (hcall : s.call? id = some call)
    (reply : Except ControlError String) :
    ((s.without id).announces call (.replied reply)).filter Notice.isLost
      = if s.belief.isProbing then (s.failure (.act env (.reply id reply))).map Notice.lostFor
        else [] := by
  rw [filter_isLost_announces]
  cases reply with
  | ok text =>
      rw [verdict_ok, ite_self]
      exact (ite_self _).symm
  | error e =>
      rw [failure, hcall, Option.any_some]
      cases hprobe : call.isProbe with
      | false => exact (ite_self _).symm
      | true =>
          rw [if_pos rfl, if_pos rfl]
          unfold verdict
          rw [without_belief]
          cases s.belief <;> rfl

/-- An engine is lost for each probe that fails while one is noted, and for
    nothing else. -/
theorem lost_told {h : Happening} (hs : s.happen h = some t) :
    (s.told h).filter Notice.isLost
      = if s.belief.isProbing then (s.failure h).map Notice.lostFor else [] := by
  have hnothing : ∀ {ns : List Notice}, ns.filter Notice.isLost = [] → s.failure h = [] →
      ns.filter Notice.isLost
        = if s.belief.isProbing then (s.failure h).map Notice.lostFor else [] := by
    intro ns hns hfailure
    rw [hns, hfailure, List.map_nil, ite_self]
  cases h with
  | setProject project => exact hnothing rfl rfl
  | elsewhere journal jobs => exact hnothing rfl rfl
  | act env action =>
      rcases Option.map_eq_some_iff.mp hs with ⟨r, hstep, rfl⟩
      have hsteps := step_eq_some_iff.mp hstep
      -- What happens without a caller tells of no engine that is lost.
      have haside : action.caller? = none →
          (s.told (.act env action)).filter Notice.isLost = [] := by
        intro hcaller
        rcases (hsteps.aside hcaller).hears with ⟨ns, hears, hquiet⟩
        rw [hears.told_eq]
        exact filter_isLost_of_quiet hquiet
      cases hsteps with
      | begins id request hnone =>
          have htells : Tells (request == .start) (enter env request) s := tells_enter request
          rcases htells with ⟨ns, hns, hreports, _⟩
          rw [(hears_begin hnone hns).told_eq]
          exact hnothing (filter_isLost_of_reports hreports) rfl
      | replies id reply call hcall hex =>
          have htells : Tells call.starts (fun s => s.carryOn env call reply)
              ((s.without id).complete call (.replied reply)) := tells_carryOn hex reply
          rcases htells with ⟨ns, hns, hreports, _⟩
          rw [(hears_reply hcall hex hns).told_eq, List.filter_append,
            filter_isLost_of_reports hreports, List.append_nil]
          exact lost_reply hcall reply
      | wakes id goal hcall =>
          have htells : Tells goal.isStart (fun s => s.resume env goal s.lastKnown)
              (s.without id) := tells_resume goal
          rcases htells with ⟨ns, hns, hreports, _⟩
          rw [(hears_wake hcall hns).told_eq]
          exact hnothing (filter_isLost_of_reports hreports) rfl
      | abandons id call hcall =>
          rw [(hears_abandon hcall).told_eq]
          exact hnothing rfl rfl
      | closes id hcall =>
          rw [(hears_close hcall).told_eq]
          exact hnothing rfl rfl
      | _ => exact hnothing (haside rfl) rfl

/-- While nothing is noted, no probe fails. -/
theorem Sole.failure (hs : s.Sole) (hno : s.belief.isProbing = false) (h : Happening) :
    s.failure h = [] := by
  unfold Supervisor.failure
  split
  next env id e =>
    refine if_neg fun hprobes => ?_
    cases hcall : s.call? id with
    | none =>
        rw [hcall] at hprobes
        exact Bool.false_ne_true hprobes
    | some call =>
        rw [hcall] at hprobes
        rw [hs.isProbing hcall hprobes] at hno
        exact absurd hno.symm Bool.false_ne_true
  next => rfl

end Supervisor

/-- The supervisor, with what an observer has written down of launches and
    probes. -/
structure Patrol where
  now : Supervisor
  /-- Each launch of the engine, with the time at which it was made. -/
  launches : List Launch := []
  /-- The reasons for which probes have failed. -/
  failed : List String := []
  /-- The notices that an engine is lost. -/
  lost : List Notice := []

namespace Patrol

/-- Nothing has happened yet. -/
def start (config : Config) : Patrol :=
  { now := .initial config }

/-- Something has happened, and was written down. -/
def note (p : Patrol) (h : Happening) (s : Supervisor) : Patrol where
  now := s
  launches := p.launches ++ p.now.launchesMade s h
  failed := p.failed ++ p.now.failure h
  lost := p.lost ++ (p.now.told h).filter Notice.isLost

/-- Something happens, if it can. -/
def see (p : Patrol) (h : Happening) : Patrol :=
  match p.now.happen h with
  | none => p
  | some s => p.note h s

/-- Several things happen in order. -/
def after (p : Patrol) (happenings : List Happening) : Patrol :=
  happenings.foldl see p

variable {p : Patrol}

/-- Whoever looks on, the same happens. -/
theorem now_after {w : Watch} (hnow : p.now = w.now) (happenings : List Happening) :
    (p.after happenings).now = (w.after happenings).now := by
  induction happenings generalizing p w with
  | nil => exact hnow
  | cons h rest ih =>
      refine ih (p := p.see h) (w := w.see h) ?_
      rw [see, Watch.see, hnow]
      cases w.now.happen h with
      | none => exact hnow
      | some s =>
          dsimp only [note]
          split
          next => rfl
          next => rfl

/-- The launch that is believed in is the latest that was made, at the time at
    which it was made. -/
def Dated (p : Patrol) : Prop :=
  ∀ launch, p.now.belief.launch? = some launch → p.launches.getLast? = some launch

theorem dated_see (hp : p.Dated) (h : Happening) : (p.see h).Dated := by
  unfold see
  split
  next => exact hp
  next s hs =>
    intro launch hl
    rw [note]
    dsimp only
    rcases Supervisor.datable_happen hs launch hl with hmade | ⟨hnone, hbefore⟩
    · rw [hmade, List.getLast?_concat]
    · rw [hnone, List.append_nil]
      exact hp launch hbefore

/-- In any run of peaceful calls each launch keeps the time at which it was made. -/
theorem dated_after (hp : p.Dated) (happenings : List Happening) : (p.after happenings).Dated := by
  induction happenings generalizing p with
  | nil => exact hp
  | cons h rest ih => exact ih (dated_see hp h)

/-- As long as all is peaceful, probes are under way exactly while they are
    noted, and the engine is lost for each that fails. -/
theorem sole_after (hp : p.now.Sole) {happenings : List Happening}
    (hpeaceful : ∀ h ∈ happenings, h.isPeaceful = true) :
    (p.after happenings).now.Sole ∧ ∃ reasons,
      (p.after happenings).failed = p.failed ++ reasons ∧
        (p.after happenings).lost = p.lost ++ reasons.map Notice.lostFor := by
  induction happenings generalizing p with
  | nil => exact ⟨hp, [], (List.append_nil _).symm, (List.append_nil _).symm⟩
  | cons h rest ih =>
      have hrest : ∀ h ∈ rest, h.isPeaceful = true := fun h hmem =>
        hpeaceful h (List.mem_cons_of_mem _ hmem)
      have hsee : (p.see h).now.Sole ∧ ∃ reasons, (p.see h).failed = p.failed ++ reasons ∧
          (p.see h).lost = p.lost ++ reasons.map Notice.lostFor := by
        unfold see
        cases hs : p.now.happen h with
        | none => exact ⟨hp, [], (List.append_nil _).symm, (List.append_nil _).symm⟩
        | some s =>
            refine ⟨hp.happen (hpeaceful h List.mem_cons_self) hs, p.now.failure h, rfl, ?_⟩
            change p.lost ++ (p.now.told h).filter Notice.isLost = _
            rw [Supervisor.lost_told hs]
            split
            next => rfl
            next hno =>
              -- Nothing is noted, so no probe is under way that could fail.
              rw [hp.failure (Bool.eq_false_iff.mpr hno), List.map_nil]
      rcases hsee with ⟨hsole, first, hfailed, hlost⟩
      rcases ih hsole hrest with ⟨hend, more, hfailed', hlost'⟩
      refine ⟨hend, first ++ more, ?_, ?_⟩
      · rw [← List.append_assoc, ← hfailed]
        exact hfailed'
      · rw [List.map_append, ← List.append_assoc, ← hlost]
        exact hlost'

/-- Without calls nothing is noted, whatever has happened. -/
theorem sole_of_idle (config : Config) (happenings : List Happening)
    (hidle : ((start config).after happenings).now.calls = []) :
    ((start config).after happenings).now.Sole := by
  have hnow := now_after (p := start config) (w := .start config) rfl happenings
  have hunnoted : ((start config).after happenings).now.belief.isProbing = false := by
    refine Bool.eq_false_iff.mpr fun hnoted => ?_
    rcases Belief.isProbing_iff.mp hnoted with ⟨launch, hlaunch⟩
    rcases (Watch.attended_after config happenings).noted launch (hnow ▸ hlaunch)
      with ⟨id, _, call, hcall, _⟩
    rw [← hnow, Supervisor.call?_of_nobody hidle] at hcall
    exact nomatch hcall
  refine ⟨?_, fun c hc => ?_, ?_⟩
  · rw [hidle]
    exact List.nodup_nil
  · rw [hidle] at hc
    exact absurd hc List.not_mem_nil
  · rw [Supervisor.probeCount, hidle, hunnoted]
    rfl

end Patrol

namespace Supervisor

variable {s : Supervisor}

/-- The status is not asked for twice. -/
theorem Sole.check (h : s.Sole) (hunder : 0 < s.probeCount) (hcompiling : s.isCompiling = false)
    (now : Nat) : s.check now = (s, .known .unknown) := by
  rw [h.count] at hunder
  have hnoted : s.belief.isProbing = true := by
    by_contra hno
    rw [if_neg hno] at hunder
    exact absurd hunder (Nat.lt_irrefl 0)
  rcases Belief.isProbing_iff.mp hnoted with ⟨launch, hlaunch⟩
  rw [Supervisor.check, hcompiling, if_neg Bool.false_ne_true, hlaunch]

theorem begin_status_of_unknown {env : Surroundings} {id : Nat}
    (hcheck : s.check env.now = (s, .known .unknown)) (hnone : s.call? id = none) :
    s.step env (.begin id .status) = some (s, some (.status .unknown)) := by
  have henter : s.enter env .status = (s, .finished (.status .unknown)) := by
    rw [enter, hcheck]
  rw [step_eq_some_iff.mpr (.begins id .status hnone), henter, endTurn, without_of_none hnone]

end Supervisor

/-- From any state that no call is under way in, as long as no call stops the
    engine or compiles: as many probes are under way as are noted; while one is,
    and nothing is compiled, the status is unknown, and to ask for it changes
    nothing; an engine is lost for each probe that fails, once; and a probe that
    is given up leaves the belief in a running engine, with the time at which it
    was launched. -/
theorem single_probe_flight (config : Config) (before calm : List Happening)
    (hidle : ((Patrol.start config).after before).now.calls = [])
    (hcalm : ∀ h ∈ calm, h.isPeaceful = true) :
    let p := (Patrol.start config).after before
    let q := p.after calm
    q.now.probeCount = (if q.now.belief.isProbing then 1 else 0) ∧
    (0 < q.now.probeCount → q.now.isCompiling = false → ∀ env : Surroundings,
      q.now.check env.now = (q.now, .known .unknown) ∧
      ∀ id, q.now.call? id = none →
        q.now.step env (.begin id .status) = some (q.now, some (.status .unknown))) ∧
    (∃ reasons, q.failed = p.failed ++ reasons ∧
      q.lost = p.lost ++ reasons.map Notice.lostFor) ∧
    ∀ id call, q.now.call? id = some call → call.isProbe = true →
      ∃ launch t, q.launches.getLast? = some launch ∧ q.now.belief = .probing launch ∧
        q.now.abandon id = some t ∧ t.belief = .running launch := by
  intro p q
  rcases Patrol.sole_after (Patrol.sole_of_idle config before hidle) hcalm with ⟨hsole, hlost⟩
  have hdated : q.Dated := by
    refine Patrol.dated_after (Patrol.dated_after ?_ before) calm
    exact fun launch hl => absurd hl (by
      simp only [Patrol.start, Supervisor.initial, Belief.launch?, reduceCtorEq,
        not_false_eq_true])
  refine ⟨hsole.count, fun hunder hcompiling env => ?_, hlost, fun id call hcall hprobe => ?_⟩
  · have hcheck := hsole.check hunder hcompiling env.now
    exact ⟨hcheck, fun id hnone => Supervisor.begin_status_of_unknown hcheck hnone⟩
  · rcases Belief.isProbing_iff.mp (hsole.isProbing hcall hprobe) with ⟨launch, hlaunch⟩
    refine ⟨launch, _, hdated launch (congrArg Belief.launch? hlaunch), hlaunch,
      Supervisor.abandon_eq hcall, ?_⟩
    rw [Supervisor.belief_complete_probe hprobe, Supervisor.without_belief, hlaunch]
    rfl

/-- An engine that was launched at 7 is probed at 9, while another call waits;
    the probe is given up. -/
theorem single_probe_flight_abandoned :
    let p := (Patrol.start { startupGrace := .ofMillis 0 }).after
      [.act ⟨7, .ok none, fun _ => .ok none⟩ (.begin 0 .start)]
    let calm := [.begin 1 .status, .begin 2 .execTime].map
      (Happening.act ⟨9, .ok none, fun _ => .ok none⟩)
    p.now.calls = [] ∧ (∀ h ∈ calm, h.isPeaceful = true) ∧
      (p.after calm).now.probeCount = 1 ∧
      ∃ t, (p.after calm).now.abandon 1 = some t ∧ t.belief = .running ⟨0, 7⟩ := by
  intro p calm
  have hidle : p.now.calls = [] := by decide
  have hcalm : ∀ h ∈ calm, h.isPeaceful = true := by
    intro h hmem
    rcases List.mem_map.mp hmem with ⟨action, haction, rfl⟩
    simp only [List.mem_cons, List.not_mem_nil, or_false] at haction
    rcases haction with rfl | rfl <;> rfl
  rcases single_probe_flight _ _ calm hidle hcalm with ⟨hcount, _, _, hdrop⟩
  rcases hdrop 1 .asking (by decide) rfl with ⟨launch, t, hlast, _, habandon, hbelief⟩
  have hlaunch : launch = ⟨0, 7⟩ := Option.some.inj (hlast.symm.trans (by decide))
  refine ⟨hidle, hcalm, ?_, t, habandon, hlaunch ▸ hbelief⟩
  exact hcount.trans (if_pos (by decide))

end SoftPlc
