import SoftPlc.Proofs.Supervisor.Turns

/-!
# What a completion does

An exchange completes with a reply, with an error, or by being dropped. What
this changes by itself is `complete`; what the caller does next, in the same
turn, is `carryOn`. The two have to be told apart, because a caller that goes
on may well do to the belief what the reply to it must not.

Only two kinds of completion reach the belief. A probe ends whatever probe is
noted, and an acknowledged order to quit ends any belief. Neither asks which
launch of the engine it was sent to.

## Main definitions

* `Call.settles`: The calls whose completion reaches the belief.
* `Completion`: A reply, or that there will be none.
* `Supervisor.complete`: What a completion changes.
* `Supervisor.announces`: What it publishes.
* `Supervisor.carryOn`: What the caller does after a reply.

## Theorems

* `reply_eq`, `abandon_eq`: A call completes first.
* `GroundedLaw.carryOn`, `TurnLaw.carryOn`: Laws of turns hold of the turn after
  a reply.
* `complete_probe`, `complete_other`: What completions do to belief and calls.
-/

namespace SoftPlc

/-- The call waits for the reply to a probe or to an order to quit. -/
def Call.settles : Call → Bool
  | asking => true
  | probing _ => true
  | quitting _ => true
  | _ => false

/-- How an exchange completes. -/
inductive Completion where
  | replied (reply : Except ControlError String)
  | dropped
  deriving Repr

/-- What the completion of a probe makes of a belief. -/
def Completion.judge (c : Completion) : Belief → Belief
  | .probing launch =>
    match c with
    | replied (.error _) => .stopped
    | _ => .running launch
  | belief => belief

/-- The acknowledgement of an order to quit. -/
def Completion.isAck : Completion → Bool
  | replied (.ok _) => true
  | _ => false

namespace Supervisor

/-- What a completion changes by itself. -/
def complete (call : Call) (c : Completion) (s : Supervisor) : Supervisor :=
  match call, c with
  | call, .dropped => if call.isProbe then s.dropProbe.signalWaiting else s
  | .asking, .replied reply => (s.settleProbe reply).1.signalWaiting
  | .probing _, .replied reply => (s.settleProbe reply).1.signalWaiting
  | .quitting _, .replied (.ok _) =>
    { s with belief := .stopped }.publish { kind := .runtimeStopped }
  | .quitting _, .replied (.error e) =>
    s.publish { kind := .runtimeStopFailed, reason := some e.text }
  | .toggling errand, .replied (.ok _) => s.publish (toggleNotice errand.toggle)
  | .toggling errand, .replied (.error e) =>
    s.publish
      { kind := .controlFailed, reason := some (errand.toggle.command.wire ++ ": " ++ e.text) }
  | _, .replied _ => s

/-- A probe that fails has lost the engine, if a probe is noted. -/
def verdict (reply : Except ControlError String) (s : Supervisor) : List Notice :=
  match s.belief, reply with
  | .probing _, .error e => [{ kind := .runtimeLost, reason := some e.text }]
  | _, _ => []

/-- What a completion publishes. -/
def announces (call : Call) (c : Completion) (s : Supervisor) : List Notice :=
  match call, c with
  | _, .dropped => []
  | .asking, .replied reply => s.verdict reply
  | .probing _, .replied reply => s.verdict reply
  | .quitting _, .replied (.ok _) => [{ kind := .runtimeStopped }]
  | .quitting _, .replied (.error e) => [{ kind := .runtimeStopFailed, reason := some e.text }]
  | .toggling errand, .replied (.ok _) => [toggleNotice errand.toggle]
  | .toggling errand, .replied (.error e) =>
    [{ kind := .controlFailed, reason := some (errand.toggle.command.wire ++ ": " ++ e.text) }]
  | _, .replied _ => []

/-- What the caller does after a reply, once that has changed what it
    changes. -/
def carryOn (env : Surroundings) (call : Call) (reply : Except ControlError String)
    (s : Supervisor) : Result :=
  match call with
  | .asking => (s, .finished (.status s.lastKnown))
  | .probing goal => s.resume env goal s.lastKnown
  | .quitting after =>
    s.afterStop env after ((reply.map fun _ => ()).mapError .stopFailed)
  | .readingTime => (s, .finished (.text (uptimeText reply)))
  | .readingLogs => (s, .finished (.text (logsText reply)))
  | .toggling errand =>
    s.afterToggle env errand ((reply.map fun _ => ()).mapError .control)
  | call => (s, .waits call)

variable {s : Supervisor} {env : Surroundings}

/-- The status that settling a probe answers with is what is known afterwards. -/
theorem settleProbe_eq (s : Supervisor) (reply : Except ControlError String) :
    s.settleProbe reply = ((s.settleProbe reply).1, (s.settleProbe reply).1.lastKnown) := by
  unfold settleProbe
  split
  next =>
    cases reply with
    | ok => rfl
    | error e => rfl
  next => rfl

theorem answered_eq (call : Call) (reply : Except ControlError String) :
    s.answered env call reply = (s.complete call (.replied reply)).carryOn env call reply := by
  cases call with
  | asking =>
      rw [answered, settleProbe_eq]
      rfl
  | probing goal =>
      rw [answered, settleProbe_eq]
      rfl
  | waiting goal signalled => rfl
  | quitting after =>
      cases reply with
      | ok => rfl
      | error e => rfl
  | readingTime => rfl
  | readingLogs => rfl
  | toggling errand =>
      cases reply with
      | ok => rfl
      | error e => rfl
  | closing => rfl

/-- A call that gets its reply completes first and carries on then. -/
theorem reply_eq {id : Nat} {call : Call} (hcall : s.call? id = some call)
    (hex : call.exchange?.isSome = true) (reply : Except ControlError String) :
    s.reply env id reply = some (endTurn id
      (((s.without id).complete call (.replied reply)).carryOn env call reply)) := by
  rw [Supervisor.reply, hcall]
  dsimp only
  rw [if_pos hex, answered_eq]

/-- A call that is given up completes, and that is all. -/
theorem abandon_eq {id : Nat} {call : Call} (hcall : s.call? id = some call) :
    s.abandon id = some ((s.without id).complete call .dropped) := by
  rw [abandon, hcall]
  cases call with
  | asking => rfl
  | probing goal => rfl
  | waiting goal signalled => rfl
  | quitting after => rfl
  | readingTime => rfl
  | readingLogs => rfl
  | toggling errand => rfl
  | closing => rfl

/-- What settling a probe changes, with the belief and the notices kept apart. -/
theorem settleProbe_state (s : Supervisor) (reply : Except ControlError String) :
    (s.settleProbe reply).1 = { s with
      belief := (Completion.replied reply).judge s.belief
      journal := s.journal.publishAll (s.verdict reply) } := by
  rcases s with ⟨config, journal, belief, project, jobs, current, engines, calls, cancelled⟩
  cases belief with
  | stopped => rfl
  | running launch => rfl
  | probing launch =>
      cases reply with
      | ok => rfl
      | error e => rfl

theorem dropProbe_state (s : Supervisor) :
    s.dropProbe = { s with belief := Completion.dropped.judge s.belief } := by
  rcases s with ⟨config, journal, belief, project, jobs, current, engines, calls, cancelled⟩
  cases belief with
  | stopped => rfl
  | running launch => rfl
  | probing launch => rfl

/-- The completion of a probe judges whatever belief there is, and signals all
    who wait. -/
theorem complete_probe {call : Call} (hcall : call.isProbe = true) (c : Completion) :
    s.complete call c = { s with
      belief := c.judge s.belief
      journal := s.journal.publishAll (s.announces call c) }.signalWaiting := by
  cases c with
  | dropped =>
      rw [complete, if_pos hcall, dropProbe_state]
      cases call <;> rfl
  | replied reply =>
      cases call with
      | asking => exact congrArg signalWaiting (settleProbe_state s reply)
      | probing goal => exact congrArg signalWaiting (settleProbe_state s reply)
      | _ => exact absurd hcall Bool.false_ne_true

/-- Any other completion leaves the calls alone, and the belief too unless it
    acknowledges an order to quit. -/
theorem complete_other {call : Call} (hcall : call.isProbe = false) (c : Completion) :
    s.complete call c = { s with
      belief := if call.settles && c.isAck then .stopped else s.belief
      journal := s.journal.publishAll (s.announces call c) } := by
  cases c with
  | dropped =>
      have hack : Completion.dropped.isAck = false := rfl
      rw [complete, hcall, if_neg Bool.false_ne_true, hack, Bool.and_false,
        if_neg Bool.false_ne_true]
      cases call <;> rfl
  | replied reply =>
      cases call with
      | asking => exact absurd hcall.symm Bool.false_ne_true
      | probing goal => exact absurd hcall.symm Bool.false_ne_true
      | waiting goal signalled => rfl
      | quitting after =>
          cases reply with
          | ok => rfl
          | error e => rfl
      | readingTime => rfl
      | readingLogs => rfl
      | toggling errand =>
          cases reply with
          | ok => rfl
          | error e => rfl
      | closing => rfl

/-- A probe judges what is believed when it completes, and not what was believed
    when it was sent. -/
theorem belief_complete_probe {call : Call} (hcall : call.isProbe = true) (c : Completion) :
    (s.complete call c).belief = c.judge s.belief := by
  rw [complete_probe hcall]
  rfl

/-- Of all other completions only an acknowledged order to quit changes the
    belief. -/
theorem belief_complete_other {call : Call} (hcall : call.isProbe = false) (c : Completion) :
    (s.complete call c).belief = if call.settles && c.isAck then .stopped else s.belief := by
  rw [complete_other hcall]

/-- No completion launches an engine. -/
theorem engines_complete (call : Call) (c : Completion) :
    (s.complete call c).engines = s.engines := by
  cases hcall : call.isProbe with
  | true => rw [complete_probe hcall]; rfl
  | false => rw [complete_other hcall]

/-- A probe that completes signals everybody. -/
theorem call?_complete_probe {call : Call} (hcall : call.isProbe = true) (c : Completion)
    (k : Nat) : (s.complete call c).call? k = (s.call? k).map Call.signal := by
  rw [complete_probe hcall, call?_signalWaiting]
  rfl

/-- All other completions signal nobody. -/
theorem call?_complete_other {call : Call} (hcall : call.isProbe = false) (c : Completion)
    (k : Nat) : (s.complete call c).call? k = s.call? k := by
  rw [complete_other hcall]
  rfl

/-- Signals do not touch the calls that settle the belief. -/
theorem call?_of_complete {call other : Call} {c : Completion} {k : Nat}
    (h : (s.complete call c).call? k = some other) (hother : other.settles = true) :
    s.call? k = some other := by
  cases hcall : call.isProbe with
  | true =>
      rw [call?_complete_probe hcall] at h
      rcases Option.map_eq_some_iff.mp h with ⟨before, hbefore, rfl⟩
      cases before with
      | waiting goal signalled => exact absurd hother Bool.false_ne_true
      | _ => exact hbefore
  | false =>
      rw [call?_complete_other hcall] at h
      exact h

/-- A call that is given up announces nothing. -/
theorem announces_dropped (call : Call) : s.announces call .dropped = [] := by
  cases call <;> rfl

/-- What a probe announces is its verdict. -/
theorem announces_probe {call : Call} (hprobe : call.isProbe = true)
    (reply : Except ControlError String) : s.announces call (.replied reply) = s.verdict reply := by
  cases call with
  | asking => rfl
  | probing goal => rfl
  | _ => exact absurd hprobe Bool.false_ne_true

/-- An engine that answers is nothing to tell of. -/
theorem verdict_ok (s : Supervisor) (text : String) : s.verdict (.ok text) = [] := by
  unfold verdict
  cases s.belief <;> rfl

/-- An engine that was being probed and fails to answer is told to be lost. -/
theorem verdict_lost {launch : Launch} (h : s.belief = .probing launch) (e : ControlError) :
    s.verdict (.error e) = [{ kind := .runtimeLost, reason := some e.text }] := by
  unfold verdict
  rw [h]

/-- Where no probe is noted any more, a reply to one says nothing. -/
theorem verdict_of_not_probing (h : ∀ launch, s.belief ≠ .probing launch)
    (reply : Except ControlError String) : s.verdict reply = [] := by
  unfold verdict
  split
  next launch e hb => exact absurd hb (h launch)
  next => rfl

/-- No completion makes up a launch. -/
theorem launch?_complete {call : Call} {c : Completion} {launch : Launch}
    (h : (s.complete call c).belief.launch? = some launch) : s.belief.launch? = some launch := by
  cases hcall : call.isProbe with
  | true =>
      rw [belief_complete_probe hcall] at h
      rcases hb : s.belief with _ | there | there
      · rw [hb] at h
        exact h
      · rw [hb] at h
        exact h
      · rw [hb] at h
        rcases c with (e | text) | _
        · exact absurd h (by simp only [Completion.judge, Belief.launch?, reduceCtorEq,
            not_false_eq_true])
        · exact h
        · exact h
  | false =>
      rw [belief_complete_other hcall] at h
      split at h
      next => exact absurd h (by simp only [Belief.launch?, reduceCtorEq, not_false_eq_true])
      next => exact h

/-- Once a probe has completed, none is noted. -/
theorem complete_probe_ne_probing {call : Call} (hcall : call.isProbe = true) (c : Completion)
    (launch : Launch) : (s.complete call c).belief ≠ .probing launch := by
  rw [belief_complete_probe hcall]
  rcases hb : s.belief with _ | there | there
  · exact Belief.noConfusion
  · exact Belief.noConfusion
  · rcases c with (e | text) | _
    · exact Belief.noConfusion
    · exact Belief.noConfusion
    · exact Belief.noConfusion

/-- A law holds of every turn after a reply, if the reply to a probe is
    trusted where the engine is known to run. -/
theorem GroundedLaw.carryOn {may : Bool} {trusted : Prop}
    {P : (Supervisor → Result) → Supervisor → Prop} (h : GroundedLaw env may trusted P)
    {call : Call} (hex : call.exchange?.isSome = true) (hcall : call.starts = true → may = true)
    (reply : Except ControlError String)
    (htrusted : call.isProbe = true → s.lastKnown = .running → trusted) :
    P (fun s => s.carryOn env call reply) s := by
  cases call with
  | asking =>
      exact h.comesTo (h.finishes s (.status s.lastKnown) Outcome.noConfusion) fun _ => rfl
  | probing goal => exact h.resume goal hcall (htrusted rfl)
  | waiting goal signalled => exact absurd hex Bool.false_ne_true
  | quitting after => exact h.afterStop after _
  | readingTime => exact h.finishes s _ Outcome.noConfusion
  | readingLogs => exact h.finishes s _ Outcome.noConfusion
  | toggling errand => exact h.afterToggle errand _
  | closing => exact absurd hex Bool.false_ne_true

/-- A law of turns holds of every turn after a reply. -/
theorem TurnLaw.carryOn {may : Bool} {P : (Supervisor → Result) → Supervisor → Prop}
    (h : TurnLaw env may P) {call : Call} (hex : call.exchange?.isSome = true)
    (hcall : call.starts = true → may = true) (reply : Except ControlError String) :
    P (fun s => s.carryOn env call reply) s :=
  h.grounded.carryOn hex hcall reply fun _ _ => trivial

/-- A call that carries on after a reply advances as any turn does. -/
theorem advance_carryOn {call : Call} (hex : call.exchange?.isSome = true)
    (reply : Except ControlError String) : Advance s (s.carryOn env call reply) :=
  (advance_law env).carryOn hex (fun _ => rfl) reply

end Supervisor

end SoftPlc
