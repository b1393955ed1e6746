import SoftPlc.Proofs.Compile.Alertness

/-!
# No wake-up is missed

That a read ends for a reason is a matter of time as well as of the queue and
the flag. A record of waits therefore has a clock beside the job, and for each
read the moment at which its time is up; that moment may pass while the read is
anywhere between two steps. With each answer it keeps the stream as the read
found it at its last look. What was true then is all that has to be said of an
answer, and no later moment would do, since others go on taking lines.

What reads get is part of what was taken at all, and in the same order. That
each line goes to one of them only is thus nothing about waiting: it is what is
known of the takings.

## Main definitions

* `ReadAnswer`: What a read came to, and what it found.
* `WaitTurn`: Something that happens where reads wait.
* `Waits`: A job with its reads, a clock and what they were given.

## Theorems

* `Waits.Kept.turn`: What a read does, and answers.
* `Waits.kept_after`: What all runs keep.
* `no_wake_up_missed`: Who sleeps misses nothing.
-/

namespace SoftPlc

/-- What a read came to. -/
structure ReadAnswer where
  who : Nat
  line : Option LogLine
  /-- The stream as it was when the read looked at the queue for the last
      time. -/
  found : LogStream
  /-- The time at that moment. -/
  clock : Nat
  /-- When its time was up. -/
  deadline : Nat

/-- The line that was taken by a read, if it got one. -/
def ReadAnswer.taking? (a : ReadAnswer) : Option Taking :=
  a.line.map (Taking.mk a.who false)

/-- A read got what was first on the queue, and nothing only if its time was up
    or the stream had ended. -/
def ReadAnswer.Fair (a : ReadAnswer) : Prop :=
  a.line = a.found.waiting.head? ∧
    (a.line = none → a.deadline ≤ a.clock ∨ a.found.raised = true)

/-- Something that happens where reads wait. -/
inductive WaitTurn where
  /-- A consumer begins a read that may wait so long, unless it is reading. -/
  | read (who : Nat) (timeout : Duration)
  /-- A read makes its next step. -/
  | step (who : Nat)
  /-- A read that sleeps is woken because its time is up. -/
  | expire (who : Nat)
  | pass (time : Duration)
  /-- The reader or a consumer that does not wait does something, or a read is
      given up. -/
  | around (traffic : Traffic)
  deriving Repr

/-- A job at which reads wait, with the time and what they were given. -/
structure Waits where
  outlet : Outlet
  /-- The time, in nanoseconds. -/
  clock : Nat := 0
  /-- How long the latest read of each consumer may wait. -/
  timeout : Nat → Duration := fun _ => ⟨0⟩
  /-- When the time of that read is up. -/
  deadline : Nat → Nat := fun _ => 0
  /-- What reads came to, oldest first. -/
  answers : List ReadAnswer := []

namespace Waits

/-- A new job for a source. -/
def start (source : List UInt8) : Waits :=
  { outlet := .start source }

/-- What a read comes to in a phase, if it is over then. -/
def answered (w : Waits) (who deadline : Nat) : WaitPhase → List ReadAnswer
  | .done line => [⟨who, line, w.outlet.job.stream, w.clock, deadline⟩]
  | _ => []

/-- Something happens. -/
def see (w : Waits) : WaitTurn → Waits
  | .read who timeout =>
    if (w.outlet.phase who).isDone then
      let r := w.outlet.job.stream.beginRead timeout
      let deadline := w.clock + timeout.nanos
      { w with
        outlet := (w.outlet.took who r.2.line?.toList r.1).moved who r.2
        timeout := fun k => if k = who then timeout else w.timeout k
        deadline := fun k => if k = who then deadline else w.deadline k
        answers := w.answers ++ w.answered who deadline r.2 }
    else w
  | .step who =>
    if (w.outlet.phase who).isDone then w
    else
      let r := w.outlet.job.stream.waitStep who (w.outlet.phase who)
      { w with
        outlet := w.outlet.see (.step who)
        answers := w.answers ++ w.answered who (w.deadline who) r.2 }
  | .expire who =>
    if w.outlet.phase who = .parked ∧ w.deadline who ≤ w.clock then
      let r := w.outlet.job.stream.expire who
      { w with
        outlet := w.outlet.see (.expire who)
        answers := w.answers ++ w.answered who (w.deadline who) (.done r.1) }
    else w
  | .pass time => { w with clock := w.clock + time.nanos }
  | .around traffic => if traffic.isWait then w else { w with outlet := w.outlet.see traffic }

/-- Several things happen in order. -/
def after (w : Waits) (turns : List WaitTurn) : Waits :=
  turns.foldl see w

variable {w : Waits}

/-- What is true at any moment. -/
structure Kept (w : Waits) : Prop where
  sound : w.outlet.Sound
  alert : w.outlet.Alert
  /-- Who is still reading may wait. -/
  patient : ∀ who, (w.outlet.phase who).isDone = false → (w.timeout who).nanos ≠ 0
  fair : ∀ a ∈ w.answers, a.Fair
  given : (w.answers.filterMap ReadAnswer.taking?).Sublist w.outlet.takings

theorem kept_start (source : List UInt8) : (start source).Kept :=
  ⟨Outlet.sound_start source, fun _ => trivial, fun _ h => absurd h.symm Bool.false_ne_true,
    fun _ h => absurd h List.not_mem_nil, List.nil_sublist _⟩

/-- What a read takes is what it answers. -/
theorem takings_answered (w : Waits) (who deadline : Nat) (p : WaitPhase) :
    (w.answered who deadline p).filterMap ReadAnswer.taking?
      = p.line?.toList.map (Taking.mk who false) := by
  cases p with
  | done line =>
      cases line with
      | none => rfl
      | some line => rfl
  | registering => rfl
  | looking => rfl
  | checking => rfl
  | lookingAgain => rfl
  | parked => rfl

theorem mem_answered {who deadline : Nat} {p : WaitPhase} {a : ReadAnswer}
    (h : a ∈ w.answered who deadline p) :
    p = .done a.line ∧ a = ⟨who, a.line, w.outlet.job.stream, w.clock, deadline⟩ := by
  cases p with
  | done line =>
      rw [List.mem_singleton.mp h]
      exact ⟨rfl, rfl⟩
  | registering => exact absurd h List.not_mem_nil
  | looking => exact absurd h List.not_mem_nil
  | checking => exact absurd h List.not_mem_nil
  | lookingAgain => exact absurd h List.not_mem_nil
  | parked => exact absurd h List.not_mem_nil

/-- A read does something, and answers if it is done then. -/
theorem Kept.turn (h : w.Kept) {who deadline : Nat} {stream : LogStream} {p : WaitPhase}
    {timeout : Nat → Duration} (deadlines : Nat → Nat)
    (hhands : w.outlet.job.stream.Hands stream p.line?.toList)
    (hplace : ∀ k, k ≠ who → stream.place k = w.outlet.job.stream.place k)
    (halert : stream.Alert who p) (hothers : ∀ k, k ≠ who → timeout k = w.timeout k)
    (hpatient : p.isDone = false → (timeout who).nanos ≠ 0)
    (hfair : ∀ line, p = .done line → line = w.outlet.job.stream.waiting.head? ∧
      (line = none → deadline ≤ w.clock ∨ w.outlet.job.stream.raised = true)) :
    ({ w with
      outlet := (w.outlet.took who p.line?.toList stream).moved who p
      timeout
      deadline := deadlines
      answers := w.answers ++ w.answered who deadline p } : Waits).Kept := by
  refine ⟨(h.sound.took who hhands).moved who p, h.alert.turn hhands hplace halert,
    fun k hk => ?_, fun a ha => ?_, ?_⟩
  · dsimp only [Outlet.moved] at hk
    by_cases hwho : k = who
    · rw [if_pos hwho] at hk
      exact hwho ▸ hpatient hk
    · rw [if_neg hwho] at hk
      dsimp only
      rw [hothers k hwho]
      exact h.patient k hk
  · rcases List.mem_append.mp ha with ha | ha
    · exact h.fair a ha
    · rcases mem_answered ha with ⟨hp, ha⟩
      have hown := hfair a.line hp
      rw [ha]
      exact hown
  · dsimp only [Outlet.moved, Outlet.took]
    rw [List.filterMap_append, takings_answered]
    exact h.given.append_right _

/-- As long as no read begins or ends, nothing is answered. -/
theorem Kept.aside (h : w.Kept) {traffic : Traffic} (hwait : traffic.isWait = false) :
    ({ w with outlet := w.outlet.see traffic } : Waits).Kept := by
  rcases w.outlet.takings_see traffic with ⟨more, hmore⟩
  refine ⟨h.sound.see traffic, Outlet.alert_see h.alert traffic, fun k hk => ?_, h.fair, ?_⟩
  · exact h.patient k (Outlet.isDone_of_see hwait hk)
  · dsimp only
    rw [hmore]
    exact h.given.trans (List.sublist_append_left _ _)

/-- A read that begins waits for nothing that is there to be taken. -/
theorem Kept.read (h : w.Kept) (who : Nat) (timeout : Duration) :
    (w.see (.read who timeout)).Kept := by
  rw [see]
  split
  next =>
    refine h.turn _ (w.outlet.job.stream.hands_beginRead timeout)
      (fun k _ => congrArg (List.filter _) (w.outlet.job.stream.waiters_beginRead timeout)) ?_
      (fun k hk => if_neg hk) ?_ ?_
    · unfold LogStream.beginRead
      split
      next => exact trivial
      next => exact trivial
    · unfold LogStream.beginRead
      split
      next => exact fun hp => absurd hp.symm Bool.false_ne_true
      next hpos =>
        intro _
        rw [if_pos rfl]
        exact hpos
    · intro line hline
      unfold LogStream.beginRead at hline
      split at hline
      next hzero =>
        -- The time is up as soon as the read begins.
        rw [← WaitPhase.done.inj hline, LogStream.head?_waiting]
        exact ⟨rfl, fun _ => .inl (Nat.le_of_eq (congrArg (w.clock + ·) hzero))⟩
      next => exact absurd hline (by simp only [reduceCtorEq, not_false_eq_true])
  next => exact h

/-- A step of a waiting read takes a line, or leaves the read registered or
    warned. -/
theorem Kept.step (h : w.Kept) (who : Nat) : (w.see (.step who)).Kept := by
  rw [see]
  split
  next => exact h
  next hdone =>
    have hp := Bool.eq_false_iff.mpr hdone
    rw [Outlet.see, if_neg hdone]
    refine h.turn _ (w.outlet.job.stream.hands_waitStep who hp)
      (fun k hk => w.outlet.job.stream.place_waitStep _ hk)
      (LogStream.alert_waitStep (h.alert who)) (fun _ _ => rfl) (fun _ => h.patient who hp) ?_
    intro line hline
    rcases LogStream.waitStep_done hp hline with ⟨hhead, hagain⟩
    refine ⟨hhead, fun hnone => .inr ?_⟩
    have halert := h.alert who
    rw [hagain hnone] at halert
    exact halert

/-- A read whose time has run out is answered, with a line or without. -/
theorem Kept.expire (h : w.Kept) (who : Nat) : (w.see (.expire who)).Kept := by
  rw [see]
  split
  next hdue =>
    rw [Outlet.see, if_pos hdue.1]
    refine h.turn (p := .done _) _ (w.outlet.job.stream.hands_expire who)
      (fun k hk => w.outlet.job.stream.place_next?_leave hk) trivial (fun _ _ => rfl)
      (fun hp => absurd hp.symm Bool.false_ne_true) ?_
    intro line hline
    rw [← WaitPhase.done.inj hline, LogStream.head?_waiting]
    exact ⟨rfl, fun _ => .inl hdue.2⟩
  next => exact h

/-- Whatever happens, no read that waits is forgotten. -/
theorem kept_see (h : w.Kept) (t : WaitTurn) : (w.see t).Kept := by
  cases t with
  | read who timeout => exact h.read who timeout
  | step who => exact h.step who
  | expire who => exact h.expire who
  | pass time => exact ⟨h.sound, h.alert, h.patient, h.fair, h.given⟩
  | around traffic =>
      rw [see]
      split
      next => exact h
      next hwait => exact h.aside (Bool.eq_false_iff.mpr hwait)

/-- However a run goes, nothing of this changes. -/
theorem kept_after (h : w.Kept) (turns : List WaitTurn) : (w.after turns).Kept := by
  induction turns generalizing w with
  | nil => exact h
  | cons t rest ih => exact ih (kept_see h t)

/-- The lines that reads got are in the order of the stream, and no two are one. -/
theorem Kept.ordered (h : w.Kept) :
    (w.answers.filterMap ReadAnswer.line).Pairwise fun l l' => l.position < l'.position := by
  have htakings : w.outlet.takings.Pairwise fun t t' => t.line.position < t'.line.position := by
    refine List.pairwise_iff_getElem.mpr fun i j hi hj hij => ?_
    rw [h.sound.position (List.getElem?_eq_getElem hi),
      h.sound.position (List.getElem?_eq_getElem hj)]
    exact hij
  have hlines : w.answers.filterMap ReadAnswer.line
      = (w.answers.filterMap ReadAnswer.taking?).map Taking.line := by
    rw [List.map_filterMap]
    refine List.filterMap_congr fun a _ => ?_
    rw [ReadAnswer.taking?]
    cases a.line with
    | none => rfl
    | some line => rfl
  rw [hlines, List.pairwise_map]
  exact htakings.sublist h.given

end Waits

/-- Whatever the reader, the reads and other consumers do, and however their
    steps are mixed: if the reader owes no signal, then a read that sleeps and
    was not signalled has nothing to wake up for. A read gets what is first on
    the queue, and nothing only if the queue is empty and its time is up or the
    stream has ended. One that must not wait never sleeps: it is answered at
    once, and registers nowhere. And the lines that reads get are taken by them
    in the order of the stream, each once. -/
theorem no_wake_up_missed (source : List UInt8) (turns : List WaitTurn) :
    let w := (Waits.start source).after turns
    let s := w.outlet.job.stream
    (∀ who, w.outlet.phase who = .parked → s.isSignalled who = false → s.owesSignal = false →
      s.waiting = [] ∧ s.raised = false) ∧
    (∀ a ∈ w.answers, a.line = a.found.waiting.head? ∧
      (a.line = none →
        a.found.waiting = [] ∧ (a.deadline ≤ a.clock ∨ a.found.raised = true))) ∧
    (∀ who, (w.outlet.phase who).isDone = false → (w.timeout who).nanos ≠ 0) ∧
    (∀ who, (w.outlet.phase who).isDone = true →
      let later := w.see (.read who ⟨0⟩)
      (later.outlet.phase who).isDone = true ∧ later.outlet.job.stream.waiters = s.waiters ∧
        later.answers = w.answers ++ [⟨who, s.waiting.head?, s, w.clock, w.clock⟩]) ∧
    (w.answers.filterMap ReadAnswer.taking?).Sublist w.outlet.takings ∧
    w.outlet.takings.map Taking.line ++ s.waiting = s.history ∧
    (∀ (n : Nat) (taking : Taking), w.outlet.takings[n]? = some taking →
      taking.line.position = n) ∧
    (w.answers.filterMap ReadAnswer.line).Pairwise fun l l' => l.position < l'.position := by
  intro w s
  have hkept : w.Kept := Waits.kept_after (Waits.kept_start source) turns
  refine ⟨fun who hparked hsignalled howes => ?_, fun a ha => ?_, hkept.patient,
    fun who hdone => ?_, hkept.given, hkept.sound.takings, fun n taking => hkept.sound.position,
    hkept.ordered⟩
  · have halert := hkept.alert who
    rw [hparked] at halert
    exact halert.2 ⟨hsignalled, howes⟩
  · rcases hkept.fair a ha with ⟨hline, hnone⟩
    refine ⟨hline, fun h => ⟨?_, hnone h⟩⟩
    exact List.head?_eq_none_iff.mp (hline.symm.trans h)
  · intro later
    -- A read that must not wait is one turn: nobody else has any in between.
    have hlater : later = w.see (.read who ⟨0⟩) := rfl
    rw [Waits.see, if_pos hdone] at hlater
    refine ⟨?_, ?_, ?_⟩
    · rw [hlater]
      exact congrArg WaitPhase.isDone (if_pos rfl)
    · rw [hlater]
      exact s.waiters_next?
    · rw [hlater, s.head?_waiting]
      rfl

end SoftPlc
