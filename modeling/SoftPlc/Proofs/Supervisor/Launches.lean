import SoftPlc.Proofs.Supervisor.Watch

/-!
# Which launch a completion is about

A probe and an order to quit are sent to the engine as it was launched last.
When the answer comes, that engine may be gone and another one in its place: a
second caller has stopped it, and a third has launched it again. The answer
ought to say nothing about the launch that it was not sent to.

It does. The reply to a probe is judged by whether a probe is noted, whoever
has noted it, so an error that is due to the old engine loses the new one while
that is being probed; and the acknowledgement of an order to quit is taken for
the engine that is believed in, whichever that is. `Disturbs` states what must
not happen and `disturbs_later_iff` when it does. Nothing else does it: a
probe leaves a launch alone that is not being probed, and an order to quit
disturbs nobody unless it is acknowledged.

## Main definitions

* `Supervisor.Disturbs`: A completion touches the belief in a launch.
* `Watch.Dated`: Calls are about the latest launch or an earlier one.
* `overlappingRestart`: A run in which a stop and a start overtake a probe.

## Theorems

* `disturbs_probe_iff`, `disturbs_quit_iff`: When completions disturb.
* `Watch.dated_after`: All runs are dated.
* `disturbs_later_iff`: When a later launch is disturbed.
-/

namespace SoftPlc

namespace Supervisor

variable {s : Supervisor} {call : Call} {c : Completion} {launch : Launch}

/-- A completion changes what is believed about a launch, or announces that it
    is lost or has stopped. -/
def Disturbs (s : Supervisor) (call : Call) (c : Completion) (launch : Launch) : Prop :=
  s.belief.launch? = some launch ∧
    ((s.complete call c).belief ≠ s.belief ∨
      ∃ n ∈ s.announces call c, n.kind = .runtimeLost ∨ n.kind = .runtimeStopped)

/-- The completion of a probe disturbs the launch that is being probed, be it
    the one that the probe was sent to or not. -/
theorem disturbs_probe_iff (hcall : call.isProbe = true) :
    s.Disturbs call c launch ↔ s.belief = .probing launch := by
  have hbelief := belief_complete_probe hcall c (s := s)
  constructor
  · rintro ⟨hlaunch, hdone⟩
    rcases hb : s.belief with _ | there | there
    · rw [hb] at hlaunch
      exact absurd hlaunch (by simp only [Belief.launch?, reduceCtorEq, not_false_eq_true])
    · -- A belief that is not being probed is what it was, and nothing is said of it.
      rcases hdone with hne | ⟨n, hn, _⟩
      · exact absurd (by rw [hbelief, hb]; rfl) hne
      · have hnone : s.announces call c = [] := by
          have hno : ∀ other, s.belief ≠ .probing other := by
            intro other h
            exact Belief.noConfusion (hb.symm.trans h)
          rcases c with reply | _
          · rw [announces_probe hcall, verdict_of_not_probing hno]
          · exact announces_dropped call
        rw [hnone] at hn
        exact absurd hn List.not_mem_nil
    · rw [hb] at hlaunch
      rw [Option.some.inj hlaunch]
  · intro hb
    refine ⟨by rw [hb]; rfl, .inl ?_⟩
    rw [hb]
    exact complete_probe_ne_probing hcall c launch

/-- An order to quit that is acknowledged disturbs the launch that is believed
    in. -/
theorem disturbs_quit_iff {after : AfterStop} :
    s.Disturbs (.quitting after) c launch ↔
      c.isAck = true ∧ s.belief.launch? = some launch := by
  have hbelief : (s.complete (.quitting after) c).belief
      = if c.isAck then .stopped else s.belief := by
    rw [belief_complete_other rfl]
    rfl
  constructor
  · rintro ⟨hlaunch, hdone⟩
    refine ⟨?_, hlaunch⟩
    rcases c with (e | text) | _
    · rcases hdone with hne | ⟨n, hn, hkind⟩
      · exact absurd hbelief hne
      · rw [List.mem_singleton.mp hn] at hkind
        exact absurd hkind (by simp only [reduceCtorEq, or_self, not_false_eq_true])
    · rfl
    · rcases hdone with hne | ⟨n, hn, _⟩
      · exact absurd hbelief hne
      · exact absurd hn List.not_mem_nil
  · rintro ⟨hack, hlaunch⟩
    refine ⟨hlaunch, .inl ?_⟩
    rw [hbelief, if_pos hack]
    intro hb
    rw [← hb] at hlaunch
    exact absurd hlaunch (by simp only [Belief.launch?, reduceCtorEq, not_false_eq_true])

/-- A turn believes in no other launch than before, or in a new one. -/
theorem Advance.launch? {r : Result} (h : Advance s r) :
    (r.1.engines.length = s.engines.length ∧
        ∀ there, r.1.belief.launch? = some there → s.belief.launch? = some there) ∨
      ∃ now, r.1.engines.length = s.engines.length + 1 ∧
        r.1.belief = .running ⟨s.engines.length, now⟩ := by
  cases h with
  | probes t call launch _ hengines hbefore hafter =>
      refine .inl ⟨hengines, fun there hl => ?_⟩
      rw [hafter] at hl
      rw [hbefore]
      exact hl
  | joins t goal launch _ hengines hbefore hafter =>
      exact .inl ⟨hengines, fun there hl => by rw [hbefore, ← hafter]; exact hl⟩
  | quits t next launch _ hengines hbefore hafter =>
      exact .inl ⟨hengines, fun there hl => by rw [hbefore, ← hafter]; exact hl⟩
  | launches t outcome now _ hengines _ hafter => exact .inr ⟨now, hengines, hafter⟩
  | stays t turn _ hengines hsame =>
      exact .inl ⟨hengines, fun there hl => by rw [← hsame]; exact hl⟩

/-- Who waits to settle the belief has one to settle. -/
theorem Advance.settles {r : Result} (h : Advance s r) (hcall : r.2.call? = some call)
    (hsettles : call.settles = true) : ∃ launch, r.1.belief.launch? = some launch := by
  cases h with
  | probes t call launch _ _ _ hafter => exact ⟨launch, congrArg Belief.launch? hafter⟩
  | joins t goal launch _ _ _ hafter => exact ⟨launch, congrArg Belief.launch? hafter⟩
  | quits t next launch _ _ _ hafter => exact ⟨launch, congrArg Belief.launch? hafter⟩
  | launches t outcome now _ _ _ hafter => exact ⟨_, congrArg Belief.launch? hafter⟩
  | stays t turn _ _ _ hturn =>
      have hby := hturn call hcall
      cases call with
      | asking => exact absurd hby Bool.false_ne_true
      | probing goal => exact absurd hby Bool.false_ne_true
      | quitting next => exact absurd hby Bool.false_ne_true
      | _ => exact absurd hsettles Bool.false_ne_true

end Supervisor

namespace Watch

/-- Launches are numbered in order, and a call that waits to settle the belief
    has done so since one that is believed in or earlier. -/
structure Dated (w : Watch) : Prop where
  latest : ∀ launch, w.now.belief.launch? = some launch →
    launch.number + 1 = w.now.engines.length
  dated : ∀ id call, w.now.call? id = some call → call.settles = true →
    ∃ launch, w.since id = some launch ∧ launch.number < w.now.engines.length ∧
      ∀ there, w.now.belief.launch? = some there → launch.number = there.number → launch = there

/-- Whatever forgets calls and beliefs stays dated. -/
theorem Dated.of_less {w w' : Watch} (hw : w.Dated)
    (hengines : w'.now.engines.length = w.now.engines.length)
    (hbelief : ∀ launch, w'.now.belief.launch? = some launch →
      w.now.belief.launch? = some launch)
    (hcalls : ∀ id call, w'.now.call? id = some call → call.settles = true →
      w.now.call? id = some call ∧ w'.since id = w.since id) : w'.Dated := by
  refine ⟨fun launch hl => ?_, fun id call hcall hsettles => ?_⟩
  · rw [hengines]
    exact hw.latest launch (hbelief launch hl)
  · rcases hcalls id call hcall hsettles with ⟨hold, hsince⟩
    rcases hw.dated id call hold hsettles with ⟨launch, hl, hlt, hsame⟩
    exact ⟨launch, hsince.trans hl, hengines ▸ hlt, fun there ht => hsame there (hbelief there ht)⟩

theorem dated_opens (w : Watch) (id : Nat) (t : Supervisor) (hw : w.Dated)
    (hopen : w.now.Opens id t) : Dated { w with now := t } := by
  cases hopen with
  | fresh => exact hw
  | completes call c hcall =>
      refine hw.of_less ?_ ?_ ?_
      · exact congrArg List.length (Supervisor.engines_complete call c)
      · exact fun launch hl => Supervisor.launch?_complete (s := w.now.without id) hl
      · intro k other hother hsettles
        have hwithout := Supervisor.call?_of_complete hother hsettles
        rw [Supervisor.call?_without] at hwithout
        split at hwithout
        next => exact absurd hwithout (by simp only [reduceCtorEq, not_false_eq_true])
        next => exact ⟨hwithout, rfl⟩

/-- A turn goes on about the launch that is believed in, or about a new one. -/
theorem dated_advances (w : Watch) (id : Nat) (r : Supervisor.Result) (hw : w.Dated)
    (_ : w.now.call? id = none) (hadv : w.now.Advance r) :
    (w.turned id (Supervisor.endTurn id r).1).Dated := by
  have hbelief : (w.turned id (Supervisor.endTurn id r).1).now.belief = r.1.belief :=
    Supervisor.endTurn_belief id r
  have hengines : (w.turned id (Supervisor.endTurn id r).1).now.engines = r.1.engines :=
    Supervisor.endTurn_engines id r
  -- The launch that is believed in is the latest, before the turn and after it.
  have hlatest : ∀ launch, r.1.belief.launch? = some launch →
      launch.number + 1 = r.1.engines.length := by
    intro launch hl
    rcases hadv.launch? with ⟨hlength, hold⟩ | ⟨now, hlength, hnew⟩
    · rw [hlength]
      exact hw.latest launch (hold launch hl)
    · rw [hnew] at hl
      rw [← Option.some.inj hl, hlength]
  refine ⟨fun launch hl => ?_, fun k call hcall hsettles => ?_⟩
  · rw [hengines]
    exact hlatest launch (hbelief ▸ hl)
  · rw [turned_since, hbelief, hengines]
    have hk : (if k = id then r.2.call? else w.now.call? k) = some call :=
      (hadv.call? id k).symm.trans hcall
    by_cases hid : k = id
    · rw [if_pos hid] at hk ⊢
      rcases hadv.settles hk hsettles with ⟨launch, hl⟩
      have hnumber := hlatest launch hl
      refine ⟨launch, Supervisor.endTurn_belief id r ▸ hl, by omega, fun there ht _ => ?_⟩
      exact Option.some.inj (hl.symm.trans ht)
    · rw [if_neg hid] at hk ⊢
      rcases hw.dated k call hk hsettles with ⟨launch, hl, hlt, hsame⟩
      rcases hadv.launch? with ⟨hlength, hold⟩ | ⟨now, hlength, hnew⟩
      · exact ⟨launch, hl, by omega, fun there ht => hsame there (hold there ht)⟩
      · -- The new launch has a number that none had when the call began to wait.
        refine ⟨launch, hl, by omega, fun there ht heq => ?_⟩
        rw [hnew] at ht
        have hthere : there.number = w.now.engines.length :=
          congrArg Launch.number (Option.some.inj ht).symm
        omega

/-- In any run the calls that settle the belief are dated by launches that were
    there. -/
theorem dated_after (config : Config) (happenings : List Happening) :
    ((start config).after happenings).Dated := by
  refine invariant ?_ dated_opens dated_advances ?_ ?_ config happenings
  · intro config
    exact ⟨fun _ hl => absurd hl (by simp only [start, Supervisor.initial, Belief.launch?,
        reduceCtorEq, not_false_eq_true]),
      fun _ _ hcall => absurd hcall (by simp only [start, Supervisor.initial, Supervisor.call?,
        List.lookup_nil, reduceCtorEq, not_false_eq_true])⟩
  · intro w id hw hnone
    refine hw.of_less rfl (fun _ hl => hl) fun k call hcall _ => ⟨hcall, ?_⟩
    have hne : k ≠ id := by
      intro heq
      exact absurd ((heq ▸ hcall).symm.trans hnone) (by simp only [reduceCtorEq, not_false_eq_true])
    rw [turned_since, if_neg hne]
  · intro w s hw hsame
    refine hw.of_less hsame.2.2 (fun launch hl => ?_) fun k call hcall _ => ⟨?_, rfl⟩
    · exact hsame.2.1 ▸ hl
    · exact (Supervisor.call?_congr hsame.1 k).symm.trans hcall

end Watch

/-- A call that settles the belief has been waiting since the launch that is
    believed in or since an earlier one. A later one is disturbed when it is being
    probed and a probe completes, in whatever way, and when an order to quit is
    acknowledged. -/
theorem disturbs_later_iff (config : Config) (happenings : List Happening) (id : Nat) (call : Call)
    (hcall : ((Watch.start config).after happenings).now.call? id = some call)
    (hsettles : call.settles = true) :
    let w := (Watch.start config).after happenings
    ∃ launch, w.since id = some launch ∧
      (∀ there, w.now.belief.launch? = some there →
        launch = there ∨ launch.number < there.number) ∧
      ∀ c later, launch.number < later.number →
        ((w.now.without id).Disturbs call c later ↔
          call.isProbe = true ∧ w.now.belief = .probing later ∨
            call.isProbe = false ∧ c.isAck = true ∧ w.now.belief.launch? = some later) := by
  intro w
  have hw : w.Dated := Watch.dated_after config happenings
  rcases hw.dated id call hcall hsettles with ⟨launch, hl, hlt, hsame⟩
  refine ⟨launch, hl, fun there ht => ?_, fun c later _ => ?_⟩
  · have hlast := hw.latest there ht
    by_cases heq : launch.number = there.number
    · exact .inl (hsame there ht heq)
    · exact .inr (by omega)
  · cases hp : call.isProbe with
    | true =>
        rw [Supervisor.disturbs_probe_iff hp]
        simp
    | false =>
        cases call with
        | quitting after =>
            rw [Supervisor.disturbs_quit_iff]
            simp
        | asking => exact absurd hp.symm Bool.false_ne_true
        | probing goal => exact absurd hp.symm Bool.false_ne_true
        | _ => exact absurd hsettles Bool.false_ne_true

/-- A stop and a start overtake a probe: call 2 probes the first launch while
    call 1 waits for it to quit, and call 4 probes the second launch before
    call 2 has its reply. -/
def overlappingRestart : List Happening :=
  [.begin 0 .start, .begin 1 .stop, .reply 1 (.ok "61"), .begin 2 .status, .reply 1 (.ok "OK"),
    .begin 3 .start, .begin 4 .status].map (.act ⟨0, .ok none, fun _ => .ok none⟩)

theorem disturbs_later_overlapping :
    let w := (Watch.start { startupGrace := .ofMillis 0 }).after overlappingRestart
    w.now.call? 2 = some .asking ∧ w.since 2 = some ⟨0, 0⟩ ∧
      ∀ c, (w.now.without 2).Disturbs .asking c ⟨1, 0⟩ := by
  have hcall : ((Watch.start { startupGrace := .ofMillis 0 }).after overlappingRestart).now.call? 2
      = some .asking := by decide
  rcases disturbs_later_iff { startupGrace := .ofMillis 0 } overlappingRestart 2 .asking hcall rfl
    with ⟨launch, hl, _, hiff⟩
  have hlaunch : launch = ⟨0, 0⟩ := Option.some.inj (hl.symm.trans (by decide))
  subst hlaunch
  refine ⟨hcall, hl, fun c => (hiff c ⟨1, 0⟩ (by decide)).mpr (.inl ⟨rfl, ?_⟩)⟩
  decide

/-- The error that is due to the first launch loses the second one. -/
theorem not_kept_apart :
    ¬ ∀ (config : Config) (happenings : List Happening) (id : Nat) (call : Call)
        (launch later : Launch) (c : Completion),
      let w := (Watch.start config).after happenings
      w.now.call? id = some call → call.settles = true → w.since id = some launch →
      launch.number < later.number → w.now.belief.launch? = some later →
      ((w.now.without id).complete call c).belief = w.now.belief ∧
        ∀ n ∈ (w.now.without id).announces call c, n.kind ≠ .runtimeLost ∧ n.kind ≠ .runtimeStopped
      := by
  intro h
  let reset : ControlError :=
    .unreachable (.v4 [127, 0, 0, 1] 43628) "Connection reset by peer (os error 104)"
  have hlost := h { startupGrace := .ofMillis 0 } overlappingRestart 2 .asking ⟨0, 0⟩ ⟨1, 0⟩
    (.replied (.error reset)) (by decide) rfl (by decide) (by decide) (by decide)
  exact absurd hlost.1 (by decide)

end SoftPlc
