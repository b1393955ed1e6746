import SoftPlc.Proofs.Supervisor.Steps

/-!
# Watching a run

Any number of callers use the supervisor at once, so a run is a list of
happenings in whatever order they come. What cannot happen at its place in the
list does not: a run goes on as if it had not been there, and every list is a
run.

The state does not say which call a probe belongs to, nor which launch of the
engine an order to quit was sent to. `Watch` keeps what an observer of all
turns can note of this: since which launch each call has been waiting, whose
turn noted the latest probe, and whose probe it was that a call began to wait
for. None of it has any influence on the run.

`Watch.invariant` is the induction over runs. Every turn of a caller first
opens, with a new call or with the completion of what the call has waited for,
and then advances or ends. An invariant has to survive these, and what happens
without a caller.

## Main definitions

* `Happening`: Something that happens, with or without a caller.
* `Watch`: The supervisor and what an observer has noted.
* `Watch.after`: A run.
* `Supervisor.Opens`: How a turn of a call opens.

## Theorems

* `happen_cases`: Everything that a happening can be.
* `Watch.invariant`: What holds of all states.
-/

namespace SoftPlc

/-- Something that happens to the supervisor. -/
inductive Happening where
  | act (env : Surroundings) (action : Action)
  | setProject (project : Project)
  /-- Others who share the journal and the jobs publish, subscribe, take lines
      or output. -/
  | elsewhere (journal : Journal) (jobs : List Job)

/-- The call whose turn it is. -/
def Action.caller? : Action → Option Nat
  | begin id _ => some id
  | reply id _ => some id
  | wake id => some id
  | abandon id => some id
  | close id => some id
  | output _ _ => none
  | write _ => none
  | compilerExit _ _ => none
  | engineExit _ _ => none

/-- The call whose turn it is. -/
def Happening.caller? : Happening → Option Nat
  | act _ action => action.caller?
  | _ => none

/-- What a happening leaves, if it can happen. -/
def Supervisor.happen (s : Supervisor) : Happening → Option Supervisor
  | .act env action => (s.step env action).map (·.1)
  | .setProject project => some (s.setProject project)
  | .elsewhere journal jobs => some { s with journal, jobs }

/-- The supervisor, and what an observer of all turns has noted. -/
structure Watch where
  now : Supervisor
  /-- The launch that was believed in when the latest turn of a call ended. -/
  since : Nat → Option Launch := fun _ => none
  /-- The call whose turn noted the latest probe. -/
  prober : Option Nat := none
  /-- The call whose probe was the latest when a call took its turn. -/
  awaited : Nat → Option Nat := fun _ => none

namespace Watch

/-- Nothing has happened yet. -/
def start (config : Config) : Watch :=
  { now := .initial config }

/-- A turn of a call leaves the supervisor in a state. -/
def turned (w : Watch) (id : Nat) (s : Supervisor) : Watch where
  now := s
  since k := if k = id then s.belief.launch? else w.since k
  prober := if (s.call? id).any Call.isProbe then some id else w.prober
  awaited k := if k = id then w.prober else w.awaited k

theorem turned_since (w : Watch) (id : Nat) (s : Supervisor) (k : Nat) :
    (w.turned id s).since k = if k = id then s.belief.launch? else w.since k := rfl

theorem turned_prober (w : Watch) (id : Nat) (s : Supervisor) :
    (w.turned id s).prober
      = if (s.call? id).any Call.isProbe then some id else w.prober := rfl

theorem turned_awaited (w : Watch) (id : Nat) (s : Supervisor) (k : Nat) :
    (w.turned id s).awaited k = if k = id then w.prober else w.awaited k := rfl

/-- Something happens, if it can. -/
def see (w : Watch) (h : Happening) : Watch :=
  match w.now.happen h with
  | none => w
  | some s =>
    match h.caller? with
    | some id => w.turned id s
    | none => { w with now := s }

/-- Several things happen in order. -/
def after (w : Watch) (happenings : List Happening) : Watch :=
  happenings.foldl see w

end Watch

namespace Supervisor

variable {s s' : Supervisor} {env : Surroundings}

/-- How a turn of a call opens: it is new, or what it has waited for is over.
    A call that is woken has waited for nothing of its own. -/
inductive Opens (s : Supervisor) (id : Nat) : Supervisor → Prop
  | fresh (hnone : s.call? id = none) : Opens s id s
  | completes (call : Call) (c : Completion) (hcall : s.call? id = some call) :
      Opens s id ((s.without id).complete call c)

/-- While a turn is under way, its call does not wait. -/
theorem Opens.call?_self {id : Nat} (h : s.Opens id s') : s'.call? id = none := by
  cases h with
  | fresh hnone => exact hnone
  | completes call c hcall =>
      have hgone : (s.without id).call? id = none := by
        rw [call?_without, if_pos rfl]
      cases hp : call.isProbe with
      | true => rw [call?_complete_probe hp, hgone, Option.map_none]
      | false => rw [call?_complete_other hp, hgone]

/-- A turn opens, and then it is over or advances. -/
def Turns (s : Supervisor) (id : Nat) (s' : Supervisor) : Prop :=
  ∃ t, s.Opens id t ∧ (s' = t ∨ ∃ r, Advance t r ∧ s' = (endTurn id r).1)

/-- What has no caller leaves calls, belief and launches alone. -/
def SameCalls (s s' : Supervisor) : Prop :=
  s'.calls = s.calls ∧ s'.belief = s.belief ∧ s'.engines.length = s.engines.length

/-- Everything that a happening can be: a turn of a call, or nothing to the
    calls. -/
theorem happen_cases {h : Happening} (hs : s.happen h = some s') :
    (∃ id, h.caller? = some id ∧ s.Turns id s') ∨ (h.caller? = none ∧ s.SameCalls s') := by
  cases h with
  | setProject project => exact .inr ⟨rfl, Option.some.inj hs ▸ ⟨rfl, rfl, rfl⟩⟩
  | elsewhere journal jobs => exact .inr ⟨rfl, Option.some.inj hs ▸ ⟨rfl, rfl, rfl⟩⟩
  | act env action =>
      rcases Option.map_eq_some_iff.mp hs with ⟨r, hstep, rfl⟩
      cases step_eq_some_iff.mp hstep with
      | begins id request hnone =>
          exact .inl ⟨id, rfl, s, .fresh hnone, .inr ⟨_, advance_enter request, rfl⟩⟩
      | replies id reply call hcall hex =>
          exact .inl ⟨id, rfl, _, .completes call (.replied reply) hcall,
            .inr ⟨_, advance_carryOn hex reply, rfl⟩⟩
      | wakes id goal hcall =>
          -- What a woken call has waited for is somebody else's.
          exact .inl ⟨id, rfl, _, .completes (.waiting goal true) .dropped hcall,
            .inr ⟨_, advance_resume goal, rfl⟩⟩
      | abandons id call hcall => exact .inl ⟨id, rfl, _, .completes call .dropped hcall, .inl rfl⟩
      | closes id hcall => exact .inl ⟨id, rfl, _, .completes .closing .dropped hcall, .inl rfl⟩
      | takes => exact .inr ⟨rfl, rfl, rfl, rfl⟩
      | writes => exact .inr ⟨rfl, rfl, rfl, rfl⟩
      | compilerExits => exact .inr ⟨rfl, rfl, rfl, rfl⟩
      | engineExits => exact .inr ⟨rfl, rfl, rfl, List.length_set⟩

end Supervisor

namespace Watch

/-- What holds at the start, survives the opening and the rest of every turn
    and all that has no caller, holds of all runs. -/
theorem invariant {P : Watch → Prop} (hstart : ∀ config, P (start config))
    (hopens : ∀ w id t, P w → w.now.Opens id t → P { w with now := t })
    (hadvances : ∀ w id r, P w → w.now.call? id = none → w.now.Advance r →
      P (w.turned id (Supervisor.endTurn id r).1))
    (hends : ∀ w id, P w → w.now.call? id = none → P (w.turned id w.now))
    (haside : ∀ w s, P w → w.now.SameCalls s → P { w with now := s })
    (config : Config) (happenings : List Happening) : P ((start config).after happenings) := by
  have hsee : ∀ w h, P w → P (w.see h) := by
    intro w h hw
    unfold see
    cases hs : w.now.happen h with
    | none => exact hw
    | some s =>
        rcases Supervisor.happen_cases hs with ⟨id, hid, t, hopen, hturn⟩ | ⟨hid, hsame⟩
        · have ht : P { w with now := t } := hopens w id t hw hopen
          rw [hid]
          rcases hturn with rfl | ⟨r, hadv, rfl⟩
          · exact hends { w with now := s } id ht hopen.call?_self
          · exact hadvances { w with now := t } id r ht hopen.call?_self hadv
        · rw [hid]
          exact haside w s hw hsame
  -- The induction is on the run, from any watch at which the property holds.
  have hafter : ∀ w, P w → P (w.after happenings) := by
    induction happenings with
    | nil => exact fun w hw => hw
    | cons h rest ih => exact fun w hw => ih (w.see h) (hsee w h hw)
  exact hafter (start config) (hstart config)

end Watch

end SoftPlc
