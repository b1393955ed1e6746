import SoftPlc.Proofs.Supervisor.TurnLaw

/-!
# What a turn can do

A turn of a call runs without interruption, so whatever it does to the belief
happens at once and is seen by others only as a whole. `Advance` says
everything that it can be: the turn ends in a probe of its own and has noted
it, in a wait for a probe that another has noted, in an order to quit given to
a launch that is believed to run, in the one launch of the engine, or somewhere
else with the belief untouched. It is a law of turns, and what is proved of
calls later follows from `Advance` alone.

An operation that goes on with a status goes on with the one that is known at
that moment, and never with an unknown one. This is what makes an order to
quit an order to some launch. `GoesOn` states it on its own.

## Main definitions

* `Turn.call?`: The call a turn ends in.
* `Supervisor.Advance`: What a turn can do.
* `Supervisor.GoesOn`: How an operation goes on that settles the status first.

## Theorems

* `advance_law`: Whatever a turn is made of, it advances.
* `goesOn_pursue`, `goesOn_resume`: Nobody goes on with an unknown status.
-/

namespace SoftPlc

/-- The first entry of a number is the one that is found. -/
theorem lookup_cons_eq {α : Type} (l : List (Nat × α)) (i k : Nat) (a : α) :
    ((i, a) :: l).lookup k = if k = i then some a else l.lookup k := by
  rw [List.lookup_cons]
  by_cases hk : k = i
  · rw [if_pos hk, beq_iff_eq.mpr hk]
  · rw [if_neg hk, beq_eq_false_iff_ne.mpr hk]

theorem lookup_filter_ne {α : Type} (l : List (Nat × α)) (id k : Nat) :
    (l.filter fun c => c.1 != id).lookup k = if k = id then none else l.lookup k := by
  induction l with
  | nil => simp
  | cons c l ih =>
      rcases c with ⟨i, a⟩
      by_cases hi : i = id
      · rw [List.filter_cons_of_neg (by simp [hi]), ih, lookup_cons_eq, hi]
        by_cases hk : k = id
        · rw [if_pos hk, if_pos hk]
        · rw [if_neg hk, if_neg hk, if_neg hk]
      · rw [List.filter_cons_of_pos (by simp [hi]), lookup_cons_eq, lookup_cons_eq, ih]
        by_cases hk : k = i
        · rw [if_pos hk, if_pos hk, if_neg (fun h => hi (hk.symm.trans h))]
        · rw [if_neg hk, if_neg hk]

theorem lookup_map_snd {α : Type} (l : List (Nat × α)) (f : α → α) (k : Nat) :
    (l.map fun c => (c.1, f c.2)).lookup k = (l.lookup k).map f := by
  induction l with
  | nil => rfl
  | cons c l ih =>
      rcases c with ⟨i, a⟩
      rw [List.map_cons, lookup_cons_eq, lookup_cons_eq, ih]
      by_cases hk : k = i
      · rw [if_pos hk, if_pos hk, Option.map_some]
      · rw [if_neg hk, if_neg hk]

/-- The call that a turn ends in, if it does not finish. -/
def Turn.call? : Turn → Option Call
  | finished _ => none
  | waits call => some call

namespace Supervisor

variable {s t : Supervisor} {env : Surroundings}

@[simp] theorem without_belief (s : Supervisor) (id : Nat) : (s.without id).belief = s.belief := rfl

/-- Which calls wait is seen from the list of calls alone. -/
theorem call?_congr (h : t.calls = s.calls) (k : Nat) : t.call? k = s.call? k := by
  rw [call?, call?, h]

/-- Where nobody calls no number is found. -/
theorem call?_of_nobody (h : s.calls = []) (k : Nat) : s.call? k = none := by
  rw [call?, h, List.lookup_nil]

/-- A call that is taken out is not found any more, and all others are. -/
theorem call?_without (s : Supervisor) (id k : Nat) :
    (s.without id).call? k = if k = id then none else s.call? k :=
  lookup_filter_ne s.calls id k

/-- Everybody is signalled, and stays where they wait. -/
theorem call?_signalWaiting (s : Supervisor) (k : Nat) :
    s.signalWaiting.call? k = (s.call? k).map Call.signal :=
  lookup_map_snd s.calls Call.signal k

theorem call?_endTurn (id : Nat) (r : Result) (k : Nat) :
    (endTurn id r).1.call? k = if k = id then r.2.call? else r.1.call? k := by
  rcases r with ⟨t, outcome | call⟩
  · exact call?_without t id k
  · have happ : (endTurn id (t, .waits call)).1.call? k
        = ((t.without id).call? k).or (if k = id then some call else none) := by
      rw [call?, endTurn, List.lookup_append, lookup_cons_eq, List.lookup_nil]
      rfl
    rw [happ, call?_without]
    by_cases hk : k = id
    · rw [if_pos hk, if_pos hk, if_pos hk, Option.none_or]
      rfl
    · rw [if_neg hk, if_neg hk, if_neg hk, Option.or_none]

/-- After its turn a call waits where the turn has left it, or not at all. -/
theorem call?_endTurn_self (id : Nat) (r : Result) : (endTurn id r).1.call? id = r.2.call? := by
  rw [call?_endTurn, if_pos rfl]

@[simp] theorem endTurn_belief (id : Nat) (r : Result) : (endTurn id r).1.belief = r.1.belief := by
  rcases r with ⟨t, outcome | call⟩ <;> rfl

@[simp] theorem endTurn_engines (id : Nat) (r : Result) :
    (endTurn id r).1.engines = r.1.engines := by
  rcases r with ⟨t, outcome | call⟩ <;> rfl

/-- What a turn can do. -/
inductive Advance (s : Supervisor) : Result → Prop
  /-- It notes a probe and waits for the reply. -/
  | probes (t : Supervisor) (call : Call) (launch : Launch) (hcalls : t.calls = s.calls)
      (hengines : t.engines.length = s.engines.length) (before : s.belief = .running launch)
      (after : t.belief = .probing launch) (hcall : call.isProbe = true) :
      Advance s (t, .waits call)
  /-- It waits for a probe that is noted. -/
  | joins (t : Supervisor) (goal : Goal) (launch : Launch) (hcalls : t.calls = s.calls)
      (hengines : t.engines.length = s.engines.length) (before : s.belief = .probing launch)
      (after : t.belief = .probing launch) : Advance s (t, .waits (.waiting goal false))
  /-- It orders a launch that is believed to run to quit. -/
  | quits (t : Supervisor) (next : AfterStop) (launch : Launch) (hcalls : t.calls = s.calls)
      (hengines : t.engines.length = s.engines.length) (before : s.belief = .running launch)
      (after : t.belief = .running launch) : Advance s (t, .waits (.quitting next))
  /-- It launches the engine. -/
  | launches (t : Supervisor) (outcome : Outcome) (now : Nat) (hcalls : t.calls = s.calls)
      (hengines : t.engines.length = s.engines.length + 1) (before : s.belief = .stopped)
      (after : t.belief = .running ⟨s.engines.length, now⟩) : Advance s (t, .finished outcome)
  /-- It leaves the belief as it is, and has nothing to do with it any more. -/
  | stays (t : Supervisor) (turn : Turn) (hcalls : t.calls = s.calls)
      (hengines : t.engines.length = s.engines.length) (same : t.belief = s.belief)
      (hturn : ∀ call, turn.call? = some call → call.isBystander = true) : Advance s (t, turn)

/-- A turn that ends with an outcome, and leaves calls, engines and belief, has
    advanced. -/
theorem Advance.finish (t : Supervisor) (outcome : Outcome) (hcalls : t.calls = s.calls)
    (hengines : t.engines.length = s.engines.length) (same : t.belief = s.belief) :
    Advance s (t, .finished outcome) :=
  .stays t _ hcalls hengines same
    (fun _ h => absurd h (by simp only [Turn.call?, reduceCtorEq, not_false_eq_true]))

theorem Advance.pause (call : Call) (hcall : call.isBystander = true) :
    Advance s (s, .waits call) :=
  .stays s _ rfl rfl rfl (fun _ h => Option.some.inj h ▸ hcall)

/-- What has changed besides belief, calls and launches does not matter. -/
theorem Advance.of_same {r : Result} (hcalls : t.calls = s.calls)
    (hengines : t.engines.length = s.engines.length) (hbelief : t.belief = s.belief)
    (h : Advance t r) : Advance s r := by
  cases h with
  | probes u call launch hc he hb ha hp =>
      exact .probes u call launch (hc.trans hcalls) (he.trans hengines) (hbelief ▸ hb) ha hp
  | joins u goal launch hc he hb ha =>
      exact .joins u goal launch (hc.trans hcalls) (he.trans hengines) (hbelief ▸ hb) ha
  | quits u next launch hc he hb ha =>
      exact .quits u next launch (hc.trans hcalls) (he.trans hengines) (hbelief ▸ hb) ha
  | launches u outcome now hc he hb ha =>
      exact .launches u outcome now (hc.trans hcalls) (by omega) (hbelief ▸ hb) (hengines ▸ ha)
  | stays u turn hc he hb ht =>
      exact .stays u turn (hc.trans hcalls) (he.trans hengines) (hb.trans hbelief) ht

/-- A turn itself does nothing to other calls. Only what opens it may signal
    them. -/
theorem Advance.calls {r : Result} (h : Advance s r) : r.1.calls = s.calls := by
  cases h with
  | probes t call launch hcalls => exact hcalls
  | joins t goal launch hcalls => exact hcalls
  | quits t next launch hcalls => exact hcalls
  | launches t outcome now hcalls => exact hcalls
  | stays t turn hcalls => exact hcalls

/-- A turn that waits has launched nothing. -/
theorem Advance.engines_of_waits {call : Call} (h : Advance s (t, .waits call)) :
    t.engines.length = s.engines.length := by
  cases h with
  | probes t call launch _ hengines => exact hengines
  | joins t goal launch _ hengines => exact hengines
  | quits t next launch _ hengines => exact hengines
  | stays t turn _ hengines => exact hengines

/-- A turn that has advanced changes no call but its own. -/
theorem Advance.call? {r : Result} (h : Advance s r) (id k : Nat) :
    (endTurn id r).1.call? k = if k = id then r.2.call? else s.call? k := by
  rw [call?_endTurn, call?_congr h.calls]

/-- Where nobody else waits, whoever waits after a turn is the one who took it. -/
theorem Advance.call?_of_nobody {r : Result} {id k : Nat} {call : Call} (h : Advance s r)
    (hcalls : s.calls = []) (hk : (endTurn id r).1.call? k = some call) :
    r.2.call? = some call := by
  rw [h.call?] at hk
  split at hk
  next => exact hk
  next =>
    rw [Supervisor.call?_of_nobody hcalls] at hk
    exact nomatch hk

theorem advance_launch (hs : s.lastKnown = .stopped) : Advance s (s.launch env) := by
  unfold launch
  rcases env.launchEngine with reason | pid
  · exact .finish s _ rfl rfl rfl
  · refine .launches _ _ env.now rfl ?_ (belief_of_lastKnown_stopped hs) rfl
    exact List.length_append

theorem advance_compileNow (source : List UInt8) : Advance s (s.compileNow env source) := by
  unfold compileNow
  split
  next => exact .finish s _ rfl rfl rfl
  next =>
    dsimp only
    -- The job before is announced to be superseded, which is not about the engine.
    generalize ht : (if s.isCompiling then s.publish { kind := .compileSuperseded } else s) = t
    have hsame : t.calls = s.calls ∧ t.engines = s.engines ∧ t.belief = s.belief := by
      rw [← ht]
      split
      next => exact ⟨rfl, rfl, rfl⟩
      next => exact ⟨rfl, rfl, rfl⟩
    rcases hsame with ⟨hcalls, hengines, hbelief⟩
    rcases env.launchCompiler source with reason | pid
    · exact .finish t _ hcalls (congrArg List.length hengines) hbelief
    · exact .finish _ _ hcalls (congrArg List.length hengines) hbelief

/-- Whatever a turn is made of, it advances. -/
theorem advance_law (env : Surroundings) : TurnLaw env true fun f s => Advance s (f s) where
  comesTo := by
    intro f g s h heq
    have hsame : f s = g s := heq s.journal
    rw [hsame]
    exact h
  finishes := fun s outcome => .finish s outcome rfl rfl rfl
  pauses := fun _ call hcall => .pause call hcall
  probes := fun _ call launch hb hcall _ => .probes _ call launch rfl rfl hb rfl hcall
  joins := by
    intro s goal hk _
    rcases belief_of_lastKnown_unknown hk with ⟨launch, hb⟩
    exact .joins s goal launch rfl rfl hb hb
  quits := by
    intro s after hk
    rcases belief_of_lastKnown_running hk with ⟨launch, hb⟩
    exact .quits s after launch rfl rfl hb hb
  launches := fun _ hs _ => advance_launch hs
  compiles := fun _ source _ => advance_compileNow source
  closes := fun s _ =>
    .of_same (t := { s with cancelled := true }) rfl rfl rfl (.pause .closing rfl)
  announces := fun s _ h =>
    .of_same (t := s.publish { kind := .shutdownRequested }) rfl rfl rfl h

/-- A call that goes on with what is known advances. The status has to be the
    one that is known then: a call that went on with an older one might launch
    over an engine. -/
theorem advance_resume (goal : Goal) : Advance s (s.resume env goal s.lastKnown) :=
  (advance_law env).resume goal fun _ => rfl

/-- So does a call at its first turn, whatever was asked for. -/
theorem advance_enter (request : Request) : Advance s (s.enter env request) :=
  (advance_law env).enter request fun _ => rfl

/-- An operation that settles the status first waits for a probe, its own or
    another's, or goes on with the status that is known and not unknown. -/
def GoesOn (env : Surroundings) (goal : Goal) (s : Supervisor) (r : Result) : Prop :=
  (∃ launch, r = ({ s with belief := .probing launch }, .waits (.probing goal))) ∨
    r = (s, .waits (.waiting goal false)) ∨
    (s.lastKnown ≠ .unknown ∧ r = s.proceed env goal s.lastKnown)

/-- Nobody goes on with an unknown status. This is one half of not being left
    behind a probe; the other is that the wait comes to an end. -/
theorem goesOn_pursue (goal : Goal) : GoesOn env goal s (s.pursue env goal) := by
  rcases settleThen_cases s env.now goal (proceed env goal) with
    ⟨launch, _, _, _, hon⟩ | ⟨_, hon⟩ | ⟨hk, _, hon⟩
  · exact .inl ⟨launch, hon s.journal⟩
  · exact .inr (.inl (hon s.journal))
  · exact .inr (.inr ⟨hk, hon s.journal⟩)

/-- Nor does a call that was woken, or has its own reply: if another probe is
    noted by then, it waits again. -/
theorem goesOn_resume (goal : Goal) : GoesOn env goal s (s.resume env goal s.lastKnown) := by
  unfold resume
  split
  next => exact goesOn_pursue goal
  next hk => exact .inr (.inr ⟨hk, rfl⟩)

end Supervisor

end SoftPlc
