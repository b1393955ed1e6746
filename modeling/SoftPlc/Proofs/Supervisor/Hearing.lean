import SoftPlc.Proofs.Supervisor.Notices
import SoftPlc.Proofs.Supervisor.Watch

/-!
# What is published when something happens

To find out what a step publishes, let it happen on an empty journal that
keeps everything: `Supervisor.told`. On the journal that is there it publishes
the same, and in that order: `step_on`. This is worth saying because the
journal that is there may have nobody who listens, and then records nothing.

The readers of the compile jobs and the exits of processes publish as well,
but never about the life of an engine that the supervisor believes in. That an
engine has exited is published as such, and changes no belief.

## Main definitions

* `Journal.blank`: An empty journal that keeps everything.
* `Supervisor.Hears`: What an action publishes, on whatever journal.
* `Supervisor.Aside`: What happens without a caller.
* `Supervisor.told`: What is published when something happens.

## Theorems

* `hears_begin`, `hears_reply`, `hears_wake`, `hears_abandon`, `hears_close`:
  What turns publish.
* `Steps.aside`: What is published without a caller.
* `step_on`: The journal makes no difference.
-/

namespace SoftPlc

namespace Journal

/-- An empty journal that keeps everything. -/
def blank : Journal :=
  { bus := { capacity := 1, receivers := [some 0] } }

/-- What is recorded. -/
def notices (j : Journal) : List Notice :=
  j.bus.log.toList.map Event.notice

theorem notices_publish {j : Journal} (hopen : j.bus.closed = false)
    (hheard : j.bus.receiverCount ≠ 0) (n : Notice) :
    (j.publish n).notices = j.notices ++ [n] := by
  have hrecords : ¬ (j.bus.closed || j.bus.receiverCount = 0) = true := by
    simp [hopen, hheard]
  rw [notices, publish]
  dsimp only
  rw [Bus.publish, if_neg hrecords, Array.toList_push, List.map_append]
  rfl

theorem notices_publishAll {j : Journal} (hopen : j.bus.closed = false)
    (hheard : j.bus.receiverCount ≠ 0) (ns : List Notice) :
    (j.publishAll ns).notices = j.notices ++ ns := by
  induction ns generalizing j with
  | nil => exact (List.append_nil _).symm
  | cons n rest ih =>
      have hsame : (j.publish n).bus.closed = false ∧ (j.publish n).bus.receiverCount ≠ 0 := by
        rw [publish, Bus.publish]
        split
        next => exact ⟨hopen, hheard⟩
        next => exact ⟨hopen, hheard⟩
      have hrest := ih hsame.1 hsame.2
      rw [notices_publish hopen hheard, List.append_assoc] at hrest
      exact hrest

/-- On an empty journal what is recorded is what is published. -/
theorem notices_blank (ns : List Notice) : (blank.publishAll ns).notices = ns :=
  notices_publishAll rfl (by decide) ns

end Journal

namespace Supervisor

variable {s : Supervisor} {env : Surroundings}

theorem endTurn_on (id : Nat) (r : Result) (j : Journal) :
    endTurn id (r.1.on j, r.2) = ((endTurn id r).1.on j, (endTurn id r).2) := by
  rcases r with ⟨t, outcome | call⟩ <;> rfl

/-- An action publishes these notices, on whatever journal. -/
def Hears (s : Supervisor) (env : Surroundings) (action : Action)
    (r : Supervisor × Option Outcome) (ns : List Notice) : Prop :=
  ∀ j, Steps env (s.on j) action (r.1.on (j.publishAll ns), r.2)

/-- A turn publishes its own notices after those that it opens with. -/
theorem hears_turn {action : Action} {id : Nat} {t : Supervisor} {f : Supervisor → Result}
    {ns : List Notice} (before : List Notice)
    (hsteps : ∀ j, Steps env (s.on j) action (endTurn id (f (t.on (j.publishAll before)))))
    (hf : Publishes f t ns) : Hears s env action (endTurn id (f t)) (before ++ ns) := by
  intro j
  have hturn := hsteps j
  rw [hf, endTurn_on, ← Journal.publishAll_append] at hturn
  exact hturn

/-- The first turn of a call publishes what the operation does. -/
theorem hears_begin {id : Nat} {request : Request} {ns : List Notice}
    (hnone : s.call? id = none) (hns : Publishes (enter env request) s ns) :
    Hears s env (.begin id request) (endTurn id (s.enter env request)) ns :=
  hears_turn [] (fun _ => .begins id request hnone) hns

/-- A turn that a reply opens publishes what the completion announces, and then
    what the operation does that carries on. -/
theorem hears_reply {id : Nat} {call : Call} {reply : Except ControlError String}
    {ns : List Notice} (hcall : s.call? id = some call) (hex : call.exchange?.isSome = true)
    (hns : Publishes (fun s => s.carryOn env call reply)
      ((s.without id).complete call (.replied reply)) ns) :
    Hears s env (.reply id reply)
      (endTurn id (((s.without id).complete call (.replied reply)).carryOn env call reply))
      ((s.without id).announces call (.replied reply) ++ ns) := by
  refine hears_turn _ (fun j => ?_) hns
  rw [← complete_on]
  exact .replies id reply call hcall hex

/-- A call that is woken publishes what it does itself. The probe that it has
    waited for was announced by the call whose probe it was. -/
theorem hears_wake {id : Nat} {goal : Goal} {ns : List Notice}
    (hcall : s.call? id = some (.waiting goal true))
    (hns : Publishes (fun s => s.resume env goal s.lastKnown) (s.without id) ns) :
    Hears s env (.wake id)
      (endTurn id ((s.without id).resume env goal (s.without id).lastKnown)) ns :=
  hears_turn [] (fun _ => .wakes id goal hcall) hns

/-- A call that is given up publishes nothing. -/
theorem hears_abandon {id : Nat} {call : Call} (hcall : s.call? id = some call) :
    Hears s env (.abandon id) ((s.without id).complete call .dropped, none) [] := by
  intro j
  have hon := complete_on (s := s.without id) call .dropped j
  rw [announces_dropped] at hon
  have hsteps : Steps env (s.on j) (.abandon id)
      (((s.without id).on j).complete call .dropped, none) := .abandons id call hcall
  rw [hon] at hsteps
  exact hsteps

/-- The end of the background work is not published. -/
theorem hears_close {id : Nat} (hcall : s.call? id = some .closing) :
    Hears s env (.close id) (s.without id, some .shutDown) [] :=
  fun _ => .closes id hcall

end Supervisor

namespace LogStream

theorem isLife_giveUp {s : LogStream} {reason : String} {n : Notice}
    (h : (s.giveUp reason).2 = some n) : n.isLife = false := by
  unfold giveUp at h
  split at h
  next => exact Option.some.inj h ▸ rfl
  next => exact absurd h (by simp only [reduceCtorEq, not_false_eq_true])

theorem isLife_finishLine {s : LogStream} {bytes : List UInt8} {n : Notice}
    (h : (s.finishLine bytes).2 = some n) : n.isLife = false := by
  unfold finishLine at h
  split at h
  next => exact isLife_giveUp h
  next => exact Option.some.inj h ▸ rfl

/-- A reader publishes lines, verdicts and the end of its stream. -/
theorem isLife_take {s : LogStream} {input : StreamInput} {n : Notice}
    (h : (s.take input).2 = some n) : n.isLife = false := by
  unfold take at h
  split at h
  next =>
    dsimp only at h
    split at h
    next => exact isLife_finishLine h
    next => exact absurd h (by simp only [reduceCtorEq, not_false_eq_true])
  next => exact absurd h (by simp only [reduceCtorEq, not_false_eq_true])
  next =>
    split at h
    next => exact absurd h (by simp only [reduceCtorEq, not_false_eq_true])
    next => exact isLife_giveUp h
  next =>
    dsimp only at h
    split at h
    next => exact absurd h (by simp only [reduceCtorEq, not_false_eq_true])
    next => exact isLife_finishLine h

theorem isLife_act {s : LogStream} {n : Notice} (h : s.act.2 = some n) : n.isLife = false := by
  unfold act at h
  split at h
  next =>
    split at h
    next => exact Option.some.inj h ▸ rfl
    next => exact absurd h (by simp only [reduceCtorEq, not_false_eq_true])
  next => exact absurd h (by simp only [reduceCtorEq, not_false_eq_true])
  next => exact absurd h (by simp only [reduceCtorEq, not_false_eq_true])
  next verdict => exact Option.some.inj h ▸ rfl
  next => exact absurd h (by simp only [reduceCtorEq, not_false_eq_true])
  next => exact absurd h (by simp only [reduceCtorEq, not_false_eq_true])
  next => exact absurd h (by simp only [reduceCtorEq, not_false_eq_true])
  next =>
    split at h
    next => exact absurd h (by simp only [reduceCtorEq, not_false_eq_true])
    next => exact absurd h (by simp only [reduceCtorEq, not_false_eq_true])
  next => exact absurd h (by simp only [reduceCtorEq, not_false_eq_true])

end LogStream

namespace Supervisor

variable {s t : Supervisor} {env : Surroundings}

/-- What is published is not about the life of an engine, and the engines are
    the same but for those that have exited. -/
structure Aside (s : Supervisor) (env : Surroundings) (action : Action)
    (r : Supervisor × Option Outcome) : Prop where
  hears : ∃ ns, Hears s env action r ns ∧ ns.filter Notice.isLife = []
  engines : r.1.engines.map EngineProcess.pid = s.engines.map EngineProcess.pid
  same : s.SameCalls r.1

theorem isLife_toList {published : Option Notice} (h : ∀ n, published = some n → n.isLife = false) :
    published.toList.filter Notice.isLife = [] := by
  refine List.filter_eq_nil_iff.mpr fun n hn => ?_
  rw [h n (Option.mem_toList.mp hn)]
  exact Bool.false_ne_true

/-- What happens without a caller is nothing to the life of an engine that is
    believed in. -/
theorem Steps.aside {action : Action} {r : Supervisor × Option Outcome}
    (h : Steps env s action r) (hcaller : action.caller? = none) : Aside s env action r := by
  cases h with
  | begins => exact absurd hcaller (Option.some_ne_none _)
  | replies => exact absurd hcaller (Option.some_ne_none _)
  | wakes => exact absurd hcaller (Option.some_ne_none _)
  | abandons => exact absurd hcaller (Option.some_ne_none _)
  | closes => exact absurd hcaller (Option.some_ne_none _)
  | takes i input job hjob hawaits =>
      refine ⟨⟨_, fun _ => .takes i input job hjob hawaits, ?_⟩, rfl, ⟨rfl, rfl, rfl⟩⟩
      exact isLife_toList fun _ hn => LogStream.isLife_take hn
  | writes i job hjob hbusy =>
      refine ⟨⟨_, fun _ => .writes i job hjob hbusy, ?_⟩, rfl, ⟨rfl, rfl, rfl⟩⟩
      exact isLife_toList fun _ hn => LogStream.isLife_act hn
  | compilerExits i code job hjob hfirst =>
      exact ⟨⟨[_], fun _ => .compilerExits i code job hjob hfirst, rfl⟩, rfl, ⟨rfl, rfl, rfl⟩⟩
  | engineExits i code engine ns hengine hfirst hns =>
      refine ⟨⟨ns, fun _ => .engineExits i code engine ns hengine hfirst hns, ?_⟩, ?_,
        ⟨rfl, rfl, List.length_set⟩⟩
      · rw [hns]
        split
        next => rfl
        next => rfl
      · rcases List.getElem?_eq_some_iff.mp hengine with ⟨hlt, rfl⟩
        rw [List.map_set]
        exact (congrArg _ (List.getElem_map _).symm).trans
          (List.set_getElem_self (by simpa using hlt))

/-- What is published when something happens. What others publish meanwhile
    is not among it. -/
def told (s : Supervisor) : Happening → List Notice
  | .act env action =>
    match (s.on .blank).step env action with
    | some (t, _) => t.journal.notices
    | none => []
  | _ => []

/-- What an action publishes on any journal is what is told of it. -/
theorem Hears.told_eq {action : Action} {r : Supervisor × Option Outcome} {ns : List Notice}
    (h : Hears s env action r ns) : s.told (.act env action) = ns := by
  rw [told, (h .blank).step_eq]
  exact Journal.notices_blank ns

/-- Whatever happens, it publishes something that does not depend on the
    journal. -/
theorem hears_step {action : Action} {r : Supervisor × Option Outcome}
    (h : Steps env s action r) : ∃ ns, Hears s env action r ns := by
  have haside : action.caller? = none → Aside s env action r := h.aside
  cases h with
  | begins id request hnone =>
      have htells : Tells (request == .start) (enter env request) s := tells_enter request
      rcases htells with ⟨ns, hns, _⟩
      exact ⟨ns, hears_begin hnone hns⟩
  | replies id reply call hcall hex =>
      have htells : Tells call.starts (fun s => s.carryOn env call reply)
          ((s.without id).complete call (.replied reply)) := tells_carryOn hex reply
      rcases htells with ⟨ns, hns, _⟩
      exact ⟨_, hears_reply hcall hex hns⟩
  | wakes id goal hcall =>
      have htells : Tells goal.isStart (fun s => s.resume env goal s.lastKnown) (s.without id) :=
        tells_resume goal
      rcases htells with ⟨ns, hns, _⟩
      exact ⟨ns, hears_wake hcall hns⟩
  | abandons id call hcall => exact ⟨[], hears_abandon hcall⟩
  | closes id hcall => exact ⟨[], hears_close hcall⟩
  | _ => exact (haside rfl).hears.imp fun _ h => h.1

/-- What is told is what is published, in that order and on whatever journal.
    With another journal the same happens otherwise. -/
theorem step_on {action : Action} {r : Supervisor × Option Outcome}
    (h : s.step env action = some r) (j : Journal) :
    (s.on j).step env action = some (r.1.on (j.publishAll (s.told (.act env action))), r.2) := by
  rcases hears_step (step_eq_some_iff.mp h) with ⟨ns, hears⟩
  rw [hears.told_eq]
  exact (hears j).step_eq

end Supervisor

end SoftPlc
