import SoftPlc.Proofs.Supervisor.Notices

/-!
# What a single call knows

While a call waits, others may change what is believed about the engine. If
there are no others, the call knows what is believed when it goes on: a probe
of its own is noted, or the launch that it has ordered to quit is believed to
run, or it has nothing to do with the belief and no probe is noted. `Alone`
says this, and every turn restores it.

A turn does two things that matter to the life of engines, one after the
other. What it opens with may end the belief in an engine, and what it goes on
to do may launch one. Each is at most one event, told by a notice of its own,
and the belief follows it: `Opened` and `Launched`.

## Main definitions

* `Life`: Something in the life of an engine.
* `Completion.ends`: What a completion ends.
* `Follows`: The belief follows what happens.
* `Supervisor.Alone`: What a single call knows about the belief.
* `Supervisor.Opened`, `Supervisor.Launched`: The two parts of a turn.

## Theorems

* `opened_complete`: A completion opens a turn of the only call.
* `Advance.alone`: A turn leaves its call with what it knows.
* `Advance.launched`: A turn launches at most one engine, where there is none.
-/

namespace SoftPlc

/-- Something in the life of an engine. -/
inductive Life where
  /-- It was launched, during a call with this request. -/
  | launched (pid : Option Nat) (request : Option Request)
  /-- It acknowledged an order to quit. -/
  | acknowledged
  /-- It did not answer a probe, for this reason. -/
  | failed (reason : String)
  deriving DecidableEq, Repr

namespace Life

/-- The notice that tells of it. -/
def notice : Life → Notice
  | launched pid _ => { kind := .runtimeStarted, pid }
  | acknowledged => { kind := .runtimeStopped }
  | failed reason => { kind := .runtimeLost, reason := some reason }

/-- It is a launch. -/
def isLaunch : Life → Bool
  | launched _ _ => true
  | _ => false

/-- The process number of a launch, if it is one. -/
def pid? : Life → Option (Option Nat)
  | launched pid _ => some pid
  | _ => none

/-- A launch is announced as one, and no end is. -/
theorem kind_notice (l : Life) : l.notice.kind = .runtimeStarted ↔ l.isLaunch = true := by
  cases l <;> simp [notice, isLaunch]

/-- Only launches have a process number to tell. -/
theorem pid?_of_not_isLaunch {l : Life} (h : l.isLaunch = false) : l.pid? = none := by
  cases l with
  | launched pid request => exact absurd h.symm Bool.false_ne_true
  | acknowledged => rfl
  | failed reason => rfl

/-- The engines that there are more of, as launches. -/
def launches (before after : List EngineProcess) (request : Option Request) : List Life :=
  (after.drop before.length).map fun e => .launched e.pid request

/-- If there are more engines than before, one was launched. -/
theorem launches_of_lt {before after : List EngineProcess} (h : before.length < after.length)
    (request : Option Request) :
    ∃ pid rest, launches before after request = .launched pid request :: rest := by
  rw [launches, List.drop_eq_getElem_cons h, List.map_cons]
  exact ⟨_, _, rfl⟩

end Life

/-- What a completion ends. -/
def Completion.ends (call : Call) (c : Completion) : List Life :=
  match call, c with
  | .asking, .replied (.error e) => [.failed e.text]
  | .probing _, .replied (.error e) => [.failed e.text]
  | .quitting _, .replied (.ok _) => [.acknowledged]
  | _, _ => []

namespace Completion

theorem ends_dropped (call : Call) : dropped.ends call = [] := by
  cases call <;> rfl

/-- A probe that fails ends the life of the engine that it was sent to. -/
theorem ends_error {call : Call} (hprobe : call.isProbe = true) (e : ControlError) :
    (replied (.error e)).ends call = [.failed e.text] := by
  cases call with
  | asking => rfl
  | probing goal => rfl
  | _ => exact absurd hprobe Bool.false_ne_true

theorem ends_ok {call : Call} (hprobe : call.isProbe = true) (text : String) :
    (replied (.ok text)).ends call = [] := by
  cases call with
  | asking => rfl
  | probing goal => rfl
  | _ => exact absurd hprobe Bool.false_ne_true

theorem ends_of_not_settles {call : Call} (hcall : call.settles = false) (c : Completion) :
    c.ends call = [] := by
  cases call with
  | asking => exact absurd hcall.symm Bool.false_ne_true
  | probing goal => exact absurd hcall.symm Bool.false_ne_true
  | quitting next => exact absurd hcall.symm Bool.false_ne_true
  | _ => rcases c with (e | text) | _ <;> rfl

/-- A completion launches nothing. -/
theorem isLaunch_ends (call : Call) (c : Completion) : ∀ l ∈ c.ends call, l.isLaunch = false := by
  intro l hl
  unfold ends at hl
  split at hl
  next => rw [List.mem_singleton.mp hl]; rfl
  next => rw [List.mem_singleton.mp hl]; rfl
  next => rw [List.mem_singleton.mp hl]; rfl
  next => exact absurd hl List.not_mem_nil

end Completion

/-- Whether an engine is believed to be there follows what has happened. -/
inductive Follows : Bool → List Life → Bool → Prop where
  | still (alive : Bool) : Follows alive [] alive
  | starts (l : Life) (hl : l.isLaunch = true) : Follows false [l] true
  | ends (l : Life) (hl : l.isLaunch = false) : Follows true [l] false

namespace Supervisor

variable {s t : Supervisor} {env : Surroundings}

/-- An engine is believed to be there. -/
def alive (s : Supervisor) : Bool :=
  s.belief.launch?.isSome

/-- What the only call there may be knows about the belief. -/
inductive Alone : List (Nat × Call) → Belief → Prop where
  | nobody (belief : Belief) (settled : ∀ launch, belief ≠ .probing launch) : Alone [] belief
  | probing (id : Nat) (call : Call) (launch : Launch) (hprobe : call.isProbe = true) :
      Alone [(id, call)] (.probing launch)
  | quitting (id : Nat) (next : AfterStop) (launch : Launch) :
      Alone [(id, .quitting next)] (.running launch)
  | bystander (id : Nat) (call : Call) (belief : Belief) (hcall : call.isBystander = true)
      (settled : ∀ launch, belief ≠ .probing launch) : Alone [(id, call)] belief

/-- Without a call no probe is noted. -/
theorem Alone.settled {belief : Belief} (h : Alone [] belief) (launch : Launch) :
    belief ≠ .probing launch := by
  cases h with
  | nobody belief settled => exact settled launch

/-- A turn of the only call has opened: nobody waits, and what has ended was
    announced. -/
structure Opened (s t : Supervisor) (ends : List Life) (announced : List Notice) : Prop where
  calls : t.calls = []
  settled : ∀ launch, t.belief ≠ .probing launch
  engines : t.engines = s.engines
  announced : announced.filter Notice.isLife = ends.map Life.notice
  follows : Follows s.alive ends t.alive

/-- A new call opens its turn with the session as it is. -/
theorem opened_fresh (hcalls : s.calls = []) (h : Alone s.calls s.belief) : Opened s s [] [] where
  calls := hcalls
  settled := Alone.settled (hcalls ▸ h)
  engines := rfl
  announced := rfl
  follows := .still _

theorem calls_without_self (id : Nat) (call : Call) (h : s.calls = [(id, call)]) :
    (s.without id).calls = [] := by
  rw [without, h]
  simp

/-- The only call is the one that is found. -/
theorem call?_alone {id i : Nat} {call c : Call} (h : s.calls = [(i, c)])
    (hcall : s.call? id = some call) : i = id ∧ c = call := by
  rw [call?, h, lookup_cons_eq] at hcall
  by_cases hid : id = i
  · rw [if_pos hid] at hcall
    exact ⟨hid.symm, Option.some.inj hcall⟩
  · rw [if_neg hid] at hcall
    exact absurd hcall (by simp)

/-- The only call never waits for somebody else's probe. -/
theorem Alone.not_waiting (h : Alone s.calls s.belief) (id : Nat) (goal : Goal) (signalled : Bool) :
    s.call? id ≠ some (.waiting goal signalled) := by
  intro hcall
  generalize hcalls : s.calls = calls at h
  generalize s.belief = belief at h
  cases h with
  | nobody belief settled =>
      rw [call?, hcalls] at hcall
      exact absurd hcall (by simp)
  | probing i call launch hprobe =>
      rcases call?_alone hcalls hcall with ⟨rfl, rfl⟩
      exact absurd hprobe Bool.false_ne_true
  | quitting i next launch => exact Call.noConfusion (call?_alone hcalls hcall).2
  | bystander i call belief hbystander settled =>
      rcases call?_alone hcalls hcall with ⟨rfl, rfl⟩
      exact absurd hbystander Bool.false_ne_true

/-- What the other replies announce is not about the life of an engine. -/
theorem isLife_announces {call : Call} (hcall : call.settles = false) (c : Completion) :
    (s.announces call c).filter Notice.isLife = [] := by
  cases call with
  | asking => exact absurd hcall.symm Bool.false_ne_true
  | probing goal => exact absurd hcall.symm Bool.false_ne_true
  | quitting next => exact absurd hcall.symm Bool.false_ne_true
  | toggling errand =>
      rcases c with (e | text) | _
      · rfl
      · rcases errand with ⟨_ | _⟩ | ⟨_ | _, _, _⟩ <;> rfl
      · rfl
  | _ => rcases c with (e | text) | _ <;> rfl

theorem calls_complete (call : Call) (c : Completion) (h : s.calls = []) :
    (s.complete call c).calls = [] := by
  cases hcall : call.isProbe with
  | true =>
      rw [complete_probe hcall, signalWaiting]
      exact congrArg (List.map _) h
  | false =>
      rw [complete_other hcall]
      exact h

/-- A probe that fails ends the belief in an engine, and no other completion of
    it does. -/
theorem opened_probe {id : Nat} {call : Call} {launch : Launch} (hcalls : s.calls = [(id, call)])
    (hbelief : s.belief = .probing launch) (hprobe : call.isProbe = true) (c : Completion) :
    Opened s ((s.without id).complete call c) (c.ends call)
      ((s.without id).announces call c) where
  calls := calls_complete call c (calls_without_self id call hcalls)
  settled := complete_probe_ne_probing hprobe c
  engines := engines_complete call c
  announced := by
    rcases c with (e | text) | _
    · have hnoted : (s.without id).belief = .probing launch := hbelief
      rw [announces_probe hprobe, verdict_lost hnoted, Completion.ends_error hprobe]
      rfl
    · rw [announces_probe hprobe, verdict_ok, Completion.ends_ok hprobe]
      rfl
    · rw [announces_dropped, Completion.ends_dropped]
      rfl
  follows := by
    have hbefore : s.alive = true := by
      rw [alive, hbelief]
      rfl
    have hafter : ((s.without id).complete call c).alive
        = (c.judge (.probing launch)).launch?.isSome := by
      rw [alive, belief_complete_probe hprobe, without_belief, hbelief]
    rw [hafter, hbefore]
    rcases c with (e | text) | _
    · rw [Completion.ends_error hprobe]
      exact .ends (.failed e.text) rfl
    · rw [Completion.ends_ok hprobe]
      exact .still true
    · rw [Completion.ends_dropped]
      exact .still true

/-- So does an order to quit that is acknowledged. -/
theorem opened_quit {id : Nat} {next : AfterStop} {launch : Launch}
    (hcalls : s.calls = [(id, .quitting next)]) (hbelief : s.belief = .running launch)
    (c : Completion) :
    Opened s ((s.without id).complete (.quitting next) c) (c.ends (.quitting next))
      ((s.without id).announces (.quitting next) c) where
  calls := calls_complete _ c (calls_without_self id _ hcalls)
  settled := by
    rw [belief_complete_other rfl, without_belief, hbelief]
    intro there
    split <;> exact Belief.noConfusion
  engines := engines_complete _ c
  announced := by
    rcases c with (e | text) | _ <;> rfl
  follows := by
    have hbefore : s.alive = true := by
      rw [alive, hbelief]
      rfl
    have hafter : ((s.without id).complete (.quitting next) c).alive
        = (if Call.settles (.quitting next) && c.isAck then Belief.stopped
            else .running launch).launch?.isSome := by
      rw [alive, belief_complete_other rfl, without_belief, hbelief]
    rw [hafter, hbefore]
    rcases c with (e | text) | _
    · exact .still true
    · exact .ends .acknowledged rfl
    · exact .still true

/-- No other call has anything to do with it. -/
theorem opened_bystander {id : Nat} {call : Call} (hcalls : s.calls = [(id, call)])
    (hcall : call.isBystander = true) (hsettled : ∀ launch, s.belief ≠ .probing launch)
    (c : Completion) :
    Opened s ((s.without id).complete call c) (c.ends call)
      ((s.without id).announces call c) := by
  have hprobe : call.isProbe = false ∧ call.settles = false := by
    cases call with
    | asking => exact absurd hcall Bool.false_ne_true
    | probing goal => exact absurd hcall Bool.false_ne_true
    | quitting next => exact absurd hcall Bool.false_ne_true
    | _ => exact ⟨rfl, rfl⟩
  have hbelief : ((s.without id).complete call c).belief = s.belief := by
    rw [belief_complete_other hprobe.1, hprobe.2, Bool.false_and, if_neg Bool.false_ne_true,
      without_belief]
  have halive : ((s.without id).complete call c).alive = s.alive := by
    rw [alive, alive, hbelief]
  have hends : c.ends call = [] := Completion.ends_of_not_settles hprobe.2 c
  refine ⟨calls_complete call c (calls_without_self id call hcalls), ?_, engines_complete call c,
    ?_, ?_⟩
  · rw [hbelief]
    exact hsettled
  · rw [hends, isLife_announces hprobe.2]
    rfl
  · rw [hends, halive]
    exact .still _

/-- The only call completes. A probe that fails and an order to quit that is
    acknowledged end a belief that was there. -/
theorem opened_complete {id : Nat} {call : Call} (h : Alone s.calls s.belief)
    (hcall : s.call? id = some call) (c : Completion) :
    Opened s ((s.without id).complete call c) (c.ends call) ((s.without id).announces call c) := by
  generalize hcalls : s.calls = calls at h
  generalize hbelief : s.belief = belief at h
  cases h with
  | nobody belief settled =>
      rw [call?, hcalls] at hcall
      exact absurd hcall (by simp)
  | probing i there launch hprobe =>
      rcases call?_alone hcalls hcall with ⟨rfl, rfl⟩
      exact opened_probe hcalls hbelief hprobe c
  | quitting i next launch =>
      rcases call?_alone hcalls hcall with ⟨rfl, rfl⟩
      exact opened_quit hcalls hbelief c
  | bystander i there belief hbystander settled =>
      rcases call?_alone hcalls hcall with ⟨rfl, rfl⟩
      exact opened_bystander hcalls hbystander (hbelief ▸ settled) c

/-- The call that a turn ends in is the only one. -/
theorem calls_endTurn {id : Nat} {r : Result} (h : r.1.calls = []) :
    (endTurn id r).1.calls = (r.2.call?.map fun call => (id, call)).toList := by
  rcases r with ⟨u, outcome | call⟩
  · rw [endTurn, without]
    exact congrArg (List.filter _) h
  · have hnone : (u.without id).calls = [] := by
      rw [without]
      exact congrArg (List.filter _) h
    rw [endTurn]
    exact congrArg (· ++ [(id, call)]) hnone

/-- A turn that nobody else is in the way of leaves its call alone with what
    it knows. -/
theorem Advance.alone (id : Nat) {r : Result} (h : Advance t r) (hcalls : t.calls = [])
    (hsettled : ∀ launch, t.belief ≠ .probing launch) :
    Alone (endTurn id r).1.calls (endTurn id r).1.belief := by
  rw [calls_endTurn (h.calls.trans hcalls), endTurn_belief]
  cases h with
  | probes u call launch _ _ before after hcall =>
      rw [after]
      exact .probing id call launch hcall
  | joins u goal launch _ _ before after => exact absurd before (hsettled launch)
  | quits u next launch _ _ before after =>
      rw [after]
      exact .quitting id next launch
  | launches u outcome now _ _ before after =>
      rw [after]
      exact .nobody _ fun _ => Belief.noConfusion
  | stays u turn _ _ same hturn =>
      rw [same]
      cases hc : turn.call? with
      | none => exact .nobody _ hsettled
      | some call => exact .bystander id call _ (hturn call hc) hsettled

/-- What a turn of the only call launches was told, and the belief follows. -/
structure Launched (t u : Supervisor) (launches : List Life) (ns : List Notice) : Prop where
  told : ns.filter Notice.isLife = launches.map Life.notice
  engines : u.engines.map EngineProcess.pid
    = t.engines.map EngineProcess.pid ++ launches.filterMap Life.pid?
  follows : Follows t.alive launches u.alive

/-- A turn that advances, and tells of what it launches, launches an engine
    where there is none or nothing at all. -/
theorem Advance.launched {r : Result} {ns : List Notice} (h : Advance t r)
    (hreports : Reports t.engines r.1.engines ns) (request : Option Request) :
    Launched t r.1 (Life.launches t.engines r.1.engines request) ns := by
  rcases hreports with ⟨hsame, hquiet⟩ | ⟨pid, hmore, hloud⟩
  · have hnone : Life.launches t.engines r.1.engines request = [] := by
      rw [Life.launches, hsame, List.drop_length]
      rfl
    have halive : r.1.alive = t.alive := by
      cases h with
      | probes u call launch _ _ before after _ => rw [alive, alive, before, after]; rfl
      | joins u goal launch _ _ before after => rw [alive, alive, before, after]
      | quits u next launch _ _ before after => rw [alive, alive, before, after]
      | launches u outcome now _ hengines before after =>
          rw [hsame] at hengines
          omega
      | stays u turn _ _ same _ => rw [alive, alive, same]
    rw [hnone]
    refine ⟨hquiet, ?_, ?_⟩
    · rw [hsame]
      exact (List.append_nil _).symm
    · rw [halive]
      exact .still _
  · have hone : Life.launches t.engines r.1.engines request = [.launched pid request] := by
      rw [Life.launches, hmore, List.drop_left]
      rfl
    -- There is one engine more, and only a launch can have brought it about.
    have halive : t.alive = false ∧ r.1.alive = true := by
      have hlength := congrArg List.length hmore
      rw [List.length_append, List.length_singleton] at hlength
      cases h with
      | launches u outcome now _ _ before after =>
          rw [alive, alive, before, after]
          exact ⟨rfl, rfl⟩
      | probes u call launch _ hengines _ _ _ =>
          exact absurd (hengines.symm.trans hlength) (by omega)
      | joins u goal launch _ hengines _ _ =>
          exact absurd (hengines.symm.trans hlength) (by omega)
      | quits u next launch _ hengines _ _ =>
          exact absurd (hengines.symm.trans hlength) (by omega)
      | stays u turn _ hengines _ _ => exact absurd (hengines.symm.trans hlength) (by omega)
    rw [hone]
    refine ⟨hloud, ?_, ?_⟩
    · rw [hmore, List.map_append]
      rfl
    · rw [halive.1, halive.2]
      exact .starts _ rfl

end Supervisor

end SoftPlc
