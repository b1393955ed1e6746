import SoftPlc.Proofs.Supervisor.Watch

/-!
# Nobody is left behind a probe

While a probe is noted, status questions are not answered: whoever asks waits
for a signal. This would be for ever if the probe that is noted were no longer
under way, or if the signal had come before the wait began.

`Attended` excludes both. A noted probe is under way, and it is the one whose
call noted it last; a call that waits unsignalled waits for a probe that was
the latest when the wait began, and is under way as well. The two are
inductive together: a probe takes its note and all unsignalled waits with it
when it completes, whatever has become of the engine meanwhile, and a wait
begins only where a note is. That an order to quit may take the note away, and
that several probes may then be under way, does no harm.

## Main definitions

* `Supervisor.Probes`: A call has a probe under way.
* `Watch.Attended`: What is noted or waited for is under way.
* `Supervisor.Signals`: The completion of one call signals another.

## Theorems

* `Watch.attended_after`: All runs are attended.
* `nobody_left_behind`: What follows for callers.
-/

namespace SoftPlc

namespace Supervisor

variable {s : Supervisor}

/-- A call has a probe under way. -/
def Probes (s : Supervisor) (id : Nat) : Prop :=
  ∃ call, s.call? id = some call ∧ call.isProbe = true

/-- Whether a call gets its reply or is given up, another that waits goes from
    unsignalled to signalled. -/
def Signals (s : Supervisor) (id waiter : Nat) (goal : Goal) : Prop :=
  (∀ env reply, ∃ t o, s.reply env id reply = some (t, o) ∧
      t.call? waiter = some (.waiting goal true)) ∧
    ∃ t, s.abandon id = some t ∧ t.call? waiter = some (.waiting goal true)

theorem signals_of_probes {id waiter : Nat} {goal : Goal} (hp : s.Probes id)
    (hw : s.call? waiter = some (.waiting goal false)) : s.Signals id waiter goal := by
  rcases hp with ⟨call, hcall, hprobe⟩
  have hne : waiter ≠ id := by
    intro heq
    rw [heq, hcall] at hw
    rw [Option.some.inj hw] at hprobe
    exact Bool.false_ne_true hprobe
  have hdone : ∀ c, ((s.without id).complete call c).call? waiter
      = some (.waiting goal true) := by
    intro c
    rw [call?_complete_probe hprobe, call?_without, if_neg hne, hw]
    rfl
  have hex : call.exchange?.isSome = true := by
    cases call with
    | asking => rfl
    | probing goal => rfl
    | _ => exact absurd hprobe Bool.false_ne_true
  constructor
  · intro env reply
    refine ⟨(endTurn id _).1, (endTurn id _).2, reply_eq hcall hex reply, ?_⟩
    rw [(advance_carryOn hex reply).call?, if_neg hne]
    exact hdone (.replied reply)
  · exact ⟨_, abandon_eq hcall, hdone .dropped⟩

end Supervisor

namespace Watch

/-- What is noted or waited for is under way. -/
structure Attended (w : Watch) : Prop where
  noted : ∀ launch, w.now.belief = .probing launch →
    ∃ p, w.prober = some p ∧ w.now.Probes p
  joined : ∀ id goal, w.now.call? id = some (.waiting goal false) →
    ∃ p, w.awaited id = some p ∧ w.now.Probes p

/-- A probe that completes leaves neither a note nor an unsignalled wait, and
    any other call is none of those that are waited for. -/
theorem attended_opens (w : Watch) (id : Nat) (t : Supervisor) (hw : w.Attended)
    (hopen : w.now.Opens id t) : Attended { w with now := t } := by
  cases hopen with
  | fresh => exact hw
  | completes call c hcall =>
      cases hp : call.isProbe with
      | true =>
          constructor
          · intro launch hb
            exact absurd hb (Supervisor.complete_probe_ne_probing hp c launch)
          · intro k goal hk
            dsimp only at hk
            rw [Supervisor.call?_complete_probe hp] at hk
            rcases Option.map_eq_some_iff.mp hk with ⟨other, _, hsignal⟩
            cases other <;> exact absurd hsignal (by simp [Call.signal])
      | false =>
          have hcalls : ∀ k, ((w.now.without id).complete call c).call? k
              = if k = id then none else w.now.call? k := by
            intro k
            rw [Supervisor.call?_complete_other hp, Supervisor.call?_without]
          -- The call that completes is no probe, so it is nobody that others wait for.
          have hkeep : ∀ p, w.now.Probes p → ((w.now.without id).complete call c).Probes p := by
            rintro p ⟨other, hother, hprobe⟩
            have hne : p ≠ id := by
              intro heq
              rw [heq, hcall] at hother
              rw [← Option.some.inj hother, hp] at hprobe
              exact Bool.false_ne_true hprobe
            exact ⟨other, by rw [hcalls, if_neg hne, hother], hprobe⟩
          constructor
          · intro launch hb
            have hold : w.now.belief = .probing launch := by
              dsimp only at hb
              rw [Supervisor.complete_other hp] at hb
              dsimp only at hb
              split at hb
              next => exact Belief.noConfusion hb
              next => exact hb
            rcases hw.noted launch hold with ⟨p, hprober, hp⟩
            exact ⟨p, hprober, hkeep p hp⟩
          · intro k goal hk
            dsimp only at hk
            rw [hcalls] at hk
            split at hk
            next => exact absurd hk (by simp only [reduceCtorEq, not_false_eq_true])
            next =>
              rcases hw.joined k goal hk with ⟨p, hawaited, hp⟩
              exact ⟨p, hawaited, hkeep p hp⟩

/-- A turn goes on while its own call does not wait, so it disturbs nobody who does. -/
theorem attended_advances (w : Watch) (id : Nat) (r : Supervisor.Result) (hw : w.Attended)
    (hnone : w.now.call? id = none) (hadv : w.now.Advance r) :
    (w.turned id (Supervisor.endTurn id r).1).Attended := by
  have hcalls := hadv.call? id
  have hkeep : ∀ p, w.now.Probes p → (Supervisor.endTurn id r).1.Probes p := by
    rintro p ⟨call, hcall, hprobe⟩
    have hne : p ≠ id := by
      intro heq
      rw [heq, hnone] at hcall
      exact absurd hcall (by simp only [reduceCtorEq, not_false_eq_true])
    exact ⟨call, by rw [hcalls, if_neg hne, hcall], hprobe⟩
  -- Others who wait do so as before; only the call of this turn may be new among them.
  have hjoined : (∀ goal, r.2.call? = some (.waiting goal false) →
      ∃ p, w.prober = some p ∧ w.now.Probes p) → ∀ k goal,
      (Supervisor.endTurn id r).1.call? k = some (.waiting goal false) →
      ∃ p, (w.turned id (Supervisor.endTurn id r).1).awaited k = some p ∧
        (Supervisor.endTurn id r).1.Probes p := by
    intro hself k goal hk
    rw [hcalls] at hk
    by_cases hne : k = id
    · rw [if_pos hne] at hk
      rcases hself goal hk with ⟨p, hprober, hp⟩
      exact ⟨p, by rw [turned_awaited, if_pos hne, hprober], hkeep p hp⟩
    · rw [if_neg hne] at hk
      rcases hw.joined k goal hk with ⟨p, hawaited, hp⟩
      exact ⟨p, by rw [turned_awaited, if_neg hne, hawaited], hkeep p hp⟩
  -- A turn that does not end in a probe leaves the note to the call that had it.
  have hprober : r.2.call?.any Call.isProbe = false →
      (w.turned id (Supervisor.endTurn id r).1).prober = w.prober := by
    intro hno
    rw [turned_prober, hcalls, if_pos rfl, hno, if_neg Bool.false_ne_true]
  cases hadv with
  | probes t call launch _ _ _ hafter hprobe =>
      have hself : (Supervisor.endTurn id (t, .waits call)).1.call? id = some call := by
        rw [hcalls, if_pos rfl]
        rfl
      refine ⟨fun _ _ => ⟨id, ?_, call, hself, hprobe⟩, hjoined ?_⟩
      · rw [turned_prober, hself, Option.any_some, if_pos hprobe]
      · intro goal hwaits
        rw [Option.some.inj hwaits] at hprobe
        exact absurd hprobe Bool.false_ne_true
  | joins t goal launch _ _ hbefore hafter =>
      refine ⟨fun there _ => ?_, hjoined fun _ _ => hw.noted launch hbefore⟩
      rcases hw.noted launch hbefore with ⟨p, hp, hprobes⟩
      exact ⟨p, (hprober rfl).trans hp, hkeep p hprobes⟩
  | quits t next launch _ _ _ hafter =>
      refine ⟨fun there hb => ?_, hjoined fun goal hwaits => ?_⟩
      · exact Belief.noConfusion (hafter.symm.trans hb)
      · exact absurd (Option.some.inj hwaits) (by simp only [reduceCtorEq, not_false_eq_true])
  | launches t outcome now _ _ _ hafter =>
      refine ⟨fun there hb => ?_, hjoined fun goal hwaits => ?_⟩
      · exact Belief.noConfusion (hafter.symm.trans hb)
      · exact absurd hwaits (by simp only [Turn.call?, reduceCtorEq, not_false_eq_true])
  | stays t turn _ _ hsame hturn =>
      refine ⟨fun there hb => ?_, hjoined fun goal hwaits => ?_⟩
      · have hno : turn.call?.any Call.isProbe = false := by
          cases hcall : turn.call? with
          | none => rfl
          | some call =>
              have hby := hturn call hcall
              cases call <;> first | rfl | exact absurd hby Bool.false_ne_true
        have hthere : w.now.belief = .probing there := by
          rw [← hsame, ← Supervisor.endTurn_belief id (t, turn)]
          exact hb
        rcases hw.noted there hthere with ⟨p, hp, hprobes⟩
        exact ⟨p, (hprober hno).trans hp, hkeep p hprobes⟩
      · exact absurd (hturn _ hwaits) Bool.false_ne_true

/-- All runs are attended, however calls overlap and whichever of them are given
    up. -/
theorem attended_after (config : Config) (happenings : List Happening) :
    ((start config).after happenings).Attended := by
  refine invariant ?_ attended_opens attended_advances ?_ ?_ config happenings
  · intro config
    exact ⟨fun _ hb => Belief.noConfusion hb,
      fun _ _ hcall => absurd hcall (by simp only [start, Supervisor.initial, Supervisor.call?,
        List.lookup_nil, reduceCtorEq, not_false_eq_true])⟩
  · intro w id hw hnone
    refine ⟨fun launch hb => ?_, fun k goal hk => ?_⟩
    · rcases hw.noted launch hb with ⟨p, hprober, hp⟩
      refine ⟨p, ?_, hp⟩
      rw [turned_prober, hnone, Option.any_none, if_neg Bool.false_ne_true, hprober]
    · rcases hw.joined k goal hk with ⟨p, hawaited, hp⟩
      refine ⟨p, ?_, hp⟩
      have hne : k ≠ id := by
        intro heq
        exact absurd (heq ▸ hk) (by rw [turned]; simp [hnone])
      rw [turned_awaited, if_neg hne, hawaited]
  · intro w s hw hsame
    have hcalls := Supervisor.call?_congr hsame.1
    refine ⟨fun launch hb => ?_, fun k goal hk => ?_⟩
    · rcases hw.noted launch (hsame.2.1 ▸ hb) with ⟨p, hprober, call, hcall, hp⟩
      exact ⟨p, hprober, call, (hcalls p).trans hcall, hp⟩
    · rcases hw.joined k goal ((hcalls k).symm.trans hk) with ⟨p, hawaited, call, hcall, hp⟩
      exact ⟨p, hawaited, call, (hcalls p).trans hcall, hp⟩

end Watch

/-- A noted probe is under way; who waits unsignalled waits for one that is, and
    is signalled when it completes; so the status is known when nobody calls,
    and nobody ever goes on with an unknown one. -/
theorem nobody_left_behind (config : Config) (happenings : List Happening) :
    let w := (Watch.start config).after happenings
    (∀ launch, w.now.belief = .probing launch → ∃ p, w.prober = some p ∧ w.now.Probes p) ∧
    (∀ id goal, w.now.call? id = some (.waiting goal false) →
      ∃ p, w.awaited id = some p ∧ w.now.Probes p ∧ w.now.Signals p id goal) ∧
    (w.now.calls = [] → w.now.lastKnown ≠ .unknown) ∧
    (∀ (s : Supervisor) env goal, s.GoesOn env goal (s.pursue env goal)) ∧
    (∀ env id goal, w.now.call? id = some (.waiting goal true) →
      ∃ r, w.now.wake env id = some (Supervisor.endTurn id r) ∧
        (w.now.without id).GoesOn env goal r) ∧
    (∀ env id goal reply, w.now.call? id = some (.probing goal) →
      ∃ r, w.now.reply env id reply = some (Supervisor.endTurn id r) ∧
        ((w.now.without id).complete (.probing goal) (.replied reply)).GoesOn env goal r) := by
  intro w
  have hw : w.Attended := Watch.attended_after config happenings
  refine ⟨hw.noted, ?_, ?_, fun s env goal => Supervisor.goesOn_pursue goal, ?_, ?_⟩
  · intro id goal hwaits
    rcases hw.joined id goal hwaits with ⟨p, hawaited, hp⟩
    exact ⟨p, hawaited, hp, Supervisor.signals_of_probes hp hwaits⟩
  · intro hcalls hunknown
    -- Without calls there is no probe under way, so none is noted.
    rcases Supervisor.belief_of_lastKnown_unknown hunknown with ⟨launch, hb⟩
    rcases hw.noted launch hb with ⟨p, _, call, hcall, _⟩
    rw [Supervisor.call?, hcalls] at hcall
    exact absurd hcall (by simp only [List.lookup_nil, reduceCtorEq, not_false_eq_true])
  · intro env id goal hwaits
    refine ⟨_, ?_, Supervisor.goesOn_resume goal⟩
    rw [Supervisor.wake, hwaits]
  · intro env id goal reply hprobing
    exact ⟨_, Supervisor.reply_eq hprobing rfl reply, Supervisor.goesOn_resume goal⟩

example :
    let env : Surroundings := ⟨0, .ok none, fun _ => .ok none⟩
    let w := (Watch.start { startupGrace := .ofMillis 0 }).after
      [.act env (.begin 0 .start), .act env (.begin 1 .status), .act env (.begin 2 .stop)]
    w.now.calls = [(1, .asking), (2, .waiting (.stop .answer) false)] ∧ w.awaited 2 = some 1 := by
  decide

end SoftPlc
