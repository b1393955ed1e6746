import SoftPlc.Proofs.Compile.Consumers

/-!
# Reads that stay alert

A read that waits goes to sleep because it has found nothing, and by the time it
sleeps there may be something. The reader has then signalled, or is about to.
That has to hold whatever else happens between any two steps of either, and it
cannot be seen from the queue and the flag alone: what matters is whether the
read was on the list of those who wait when the signal was given.

So a read is called alert in its phase (`LogStream.Alert`). From its first look
on it is registered. After that look, if it was not signalled and no signal is
due, the queue is still as empty as it was then, and once it sleeps the flag is
down as well. The reader keeps that by signalling everyone after each write that
matters, and in between it owes the signal (`LogStream.owesSignal`). Others keep
it because they only take lines away, and leave the places of those who wait as
they are (`LogStream.place`).

## Main definitions

* `LogStream.owesSignal`: A signal is due.
* `LogStream.place`: The entries of a consumer among those who wait.
* `LogStream.Alert`: What is true of a read that waits.
* `Outlet.Alert`: Everyone who reads is alert.

## Theorems

* `LogStream.Alert.of_act`: The reader's writes leave everyone alert.
* `LogStream.alert_waitStep`: A read stays alert by its own steps.
* `LogStream.waitStep_done`: What a read is done with.
* `Outlet.Alert.turn`: What one consumer does leaves the others alert.
* `Outlet.alert_see`: So does whatever happens around a job.
-/

namespace SoftPlc

namespace LogStream

variable {s t : LogStream} {who id : Nat} {p : WaitPhase}

/-- The reader has queued a line or raised the flag, and not signalled it yet. -/
def owesSignal (s : LogStream) : Bool :=
  match s.phase with
  | .signalling _ => true
  | .closing _ => true
  | _ => false

/-- The entries of a consumer on the list of those who wait. -/
def place (s : LogStream) (who : Nat) : List Waiter :=
  s.waiters.filter fun w => w.id == who

/-- The consumer has not been signalled, and is not about to be. -/
def Unwarned (s : LogStream) (who : Nat) : Prop :=
  s.isSignalled who = false ∧ s.owesSignal = false

/-- What is true of a read that waits, in each of its phases. -/
def Alert (s : LogStream) (who : Nat) : WaitPhase → Prop
  | .looking => s.place who ≠ []
  | .checking => s.place who ≠ [] ∧ (s.Unwarned who → s.waiting = [])
  | .lookingAgain => s.raised = true
  | .parked => s.place who ≠ [] ∧ (s.Unwarned who → s.waiting = [] ∧ s.raised = false)
  | _ => True

theorem isSignalled_eq (s : LogStream) (who : Nat) :
    s.isSignalled who = (s.place who).any Waiter.signalled := by
  rw [place, List.any_filter]
  rfl

theorem place_leave (s : LogStream) (h : who ≠ id) : (s.leave id).place who = s.place who := by
  rw [place, leave, List.filter_filter]
  refine List.filter_congr fun w _ => ?_
  by_cases hw : w.id = who
  · rw [hw, beq_self_eq_true, bne_iff_ne.mpr h]
    rfl
  · rw [beq_false_of_ne hw]
    rfl

theorem place_register (s : LogStream) (h : who ≠ id) :
    (s.register id).place who = s.place who := by
  have hown : ([⟨id, false⟩] : List Waiter).filter (fun w => w.id == who) = [] := by
    rw [List.filter_cons_of_neg (by rw [beq_iff_eq]; exact Ne.symm h), List.filter_nil]
  rw [← s.place_leave h, place, register, List.filter_append, hown, List.append_nil]
  rfl

theorem place_register_self (s : LogStream) (who : Nat) : (s.register who).place who ≠ [] := by
  have hown : (⟨who, false⟩ : Waiter) ∈ (s.register who).waiters :=
    List.mem_append_right _ (List.mem_singleton_self _)
  exact List.ne_nil_of_mem (List.mem_filter.mpr ⟨hown, beq_self_eq_true who⟩)

/-- A signal reaches everyone who has a place. -/
theorem isSignalled_signal (h : s.place who ≠ []) : s.signal.isSignalled who = true := by
  rcases List.exists_mem_of_ne_nil _ h with ⟨w, hw⟩
  rcases List.mem_filter.mp hw with ⟨hmem, hid⟩
  refine List.any_eq_true.mpr ⟨{ w with signalled := true }, List.mem_map_of_mem hmem, ?_⟩
  rw [Bool.and_true]
  exact hid

theorem place_signal_ne_nil (h : s.place who ≠ []) : s.signal.place who ≠ [] := by
  have hsignalled := isSignalled_signal h
  rw [isSignalled_eq] at hsignalled
  intro hnone
  rw [hnone] at hsignalled
  exact absurd hsignalled Bool.false_ne_true

/-- A consumer that sees as much as before is as alert as before. -/
theorem Alert.mono (h : s.Alert who p) (hplace : s.place who ≠ [] → t.place who ≠ [])
    (hraised : s.raised = true → t.raised = true)
    (hquiet : s.place who ≠ [] → t.Unwarned who →
      s.Unwarned who ∧ (s.waiting = [] → t.waiting = []) ∧ t.raised = s.raised) :
    t.Alert who p := by
  cases p with
  | registering => exact trivial
  | looking => exact hplace h
  | checking =>
      refine ⟨hplace h.1, fun hunwarned => ?_⟩
      rcases hquiet h.1 hunwarned with ⟨hbefore, hwaiting, _⟩
      exact hwaiting (h.2 hbefore)
  | lookingAgain => exact hraised h
  | parked =>
      refine ⟨hplace h.1, fun hunwarned => ?_⟩
      rcases hquiet h.1 hunwarned with ⟨hbefore, hwaiting, hflag⟩
      rcases h.2 hbefore with ⟨hnone, hdown⟩
      exact ⟨hwaiting hnone, hflag.trans hdown⟩
  | done line => exact trivial

/-- Lines that are taken leave whoever is waiting as alert as before, as long as
    nobody's place in the line of waiters is touched. -/
theorem Alert.of_hands {lines : List LogLine} (h : s.Alert who p) (hhands : s.Hands t lines)
    (hplace : t.place who = s.place who) : t.Alert who p := by
  have hsame := hhands.same
  have hphase : t.owesSignal = s.owesSignal := by
    rw [hsame]
    rfl
  have hflag : t.raised = s.raised := by rw [hsame]
  refine h.mono (fun hs => hplace ▸ hs) (fun hs => hflag.trans hs) fun _ hunwarned => ?_
  rw [Unwarned, isSignalled_eq, hplace, ← isSignalled_eq, hphase] at hunwarned
  refine ⟨hunwarned, fun hnone => ?_, hflag⟩
  rw [hhands.waiting] at hnone
  exact (List.append_eq_nil_iff.mp hnone).2

/-- What the reader does apart from its signals concerns nobody on the list. -/
theorem Alert.of_reader (h : s.Alert who p) (hwaiters : t.waiters = s.waiters)
    (hqueued : t.queued = s.queued) (htaken : t.taken = s.taken) (hraised : t.raised = s.raised)
    (howes : s.owesSignal = false) : t.Alert who p := by
  have hplace : t.place who = s.place who := congrArg (List.filter _) hwaiters
  refine h.mono (fun hs => hplace ▸ hs) (fun hs => hraised.trans hs) fun _ hunwarned => ?_
  rw [Unwarned, isSignalled_eq, hplace, ← isSignalled_eq] at hunwarned
  refine ⟨⟨hunwarned.1, howes⟩, fun hnone => ?_, hraised⟩
  rw [waiting, hqueued, htaken]
  exact hnone

/-- A write of which the reader owes the signal leaves nobody unwarned. -/
theorem Alert.of_owing (h : s.Alert who p) (hwaiters : t.waiters = s.waiters)
    (hraised : s.raised = true → t.raised = true) (howes : t.owesSignal = true) :
    t.Alert who p := by
  have hplace : t.place who = s.place who := congrArg (List.filter _) hwaiters
  refine h.mono (fun hs => hplace ▸ hs) hraised fun _ hunwarned => ?_
  exact absurd (howes.symm.trans hunwarned.2) Bool.noConfusion

/-- Nor does its signal. -/
theorem Alert.of_signal (h : s.Alert who p) (phase : ReaderPhase) :
    ({ s.signal with phase } : LogStream).Alert who p := by
  refine h.mono place_signal_ne_nil id fun hplace hunwarned => ?_
  exact absurd ((isSignalled_signal hplace).symm.trans hunwarned.1) Bool.noConfusion

/-- The reader's writes leave everyone alert. -/
theorem Alert.of_act (h : s.Alert who p) : s.act.1.Alert who p := by
  have howes : ∀ phase, s.phase = phase →
      s.owesSignal = ({ s with phase } : LogStream).owesSignal := by
    rintro _ rfl
    rfl
  unfold act
  split
  next hphase =>
    split
    next => exact h.of_reader rfl rfl rfl rfl (howes _ hphase)
    next => exact h
  next => exact h.of_owing rfl id rfl
  next => exact h.of_signal _
  next hphase => exact h.of_reader rfl rfl rfl rfl (howes _ hphase)
  next hphase => exact h.of_reader rfl rfl rfl rfl (howes _ hphase)
  next => exact h.of_owing rfl (fun _ => rfl) rfl
  next => exact h.of_signal _
  next hphase =>
    split
    next => exact h.of_reader rfl rfl rfl rfl (howes _ hphase)
    next => exact h
  next => exact h

theorem waiters_take (s : LogStream) (input : StreamInput) :
    (s.take input).1.waiters = s.waiters := by
  have hgiveUp : ∀ (s : LogStream) (reason : String), (s.giveUp reason).1.waiters = s.waiters := by
    intro s reason
    unfold giveUp
    split
    next => rfl
    next => rfl
  have hfinish : ∀ (s : LogStream) (bytes : List UInt8),
      (s.finishLine bytes).1.waiters = s.waiters := by
    intro s bytes
    unfold finishLine
    split
    next => exact hgiveUp s _
    next => rfl
  cases input with
  | byte b =>
      rw [take]
      split
      next => exact hfinish s _
      next => rfl
  | interrupted => rfl
  | failed reason =>
      rw [take]
      split
      next => rfl
      next => exact hgiveUp s _
  | ended =>
      rw [take]
      dsimp only
      split
      next => rfl
      next => exact hfinish { s with inputEnded := true } _

theorem Alert.of_take (h : s.Alert who p) (hw : s.awaitsInput = true) (input : StreamInput) :
    (s.take input).1.Alert who p := by
  rcases shared_take s input with ⟨hqueued, htaken, hraised⟩
  refine h.of_reader (s.waiters_take input) hqueued htaken hraised ?_
  rcases awaitsInput_cases s hw with ⟨_, hphase | hphase⟩
  · rw [owesSignal, hphase]
  · rw [owesSignal, hphase]

/-- The line that is taken next is the first of those that wait. -/
theorem head?_waiting (s : LogStream) : s.waiting.head? = s.next?.1 := by
  rw [waiting_eq_drop_history, List.head?_drop, ← front?_eq]
  unfold next?
  cases s.front? with
  | none => rfl
  | some line => rfl

/-- Taking a line signals nobody. -/
theorem waiters_next? (s : LogStream) : s.next?.2.waiters = s.waiters := by
  unfold next?
  split
  next => rfl
  next => rfl

/-- Who takes a line and leaves, leaves the places of others. -/
theorem place_next?_leave (s : LogStream) (h : who ≠ id) :
    (s.next?.2.leave id).place who = s.place who := by
  rw [place_leave _ h, place, waiters_next?]
  rfl

/-- A step of one waiting read moves no other. -/
theorem place_waitStep (s : LogStream) (p : WaitPhase) (h : who ≠ id) :
    (s.waitStep id p).1.place who = s.place who := by
  cases p with
  | registering => exact s.place_register h
  | looking =>
      have hnext := s.place_next?_leave h
      have hwaiters := s.waiters_next?
      unfold waitStep
      rcases hr : s.next? with ⟨_ | line, t⟩
      · rw [hr] at hwaiters
        exact congrArg (List.filter _) hwaiters
      · rw [hr] at hnext
        exact hnext
  | checking => rfl
  | lookingAgain => exact s.place_next?_leave h
  | parked =>
      unfold waitStep
      dsimp only
      split
      next => rfl
      next => rfl
  | done line => rfl

/-- A read that is alert stays so by its own steps. -/
theorem alert_waitStep (h : s.Alert who p) :
    (s.waitStep who p).1.Alert who (s.waitStep who p).2 := by
  cases p with
  | registering => exact s.place_register_self who
  | looking =>
      have hhead := s.head?_waiting
      have hhands := s.hands_next?
      have hwaiters := s.waiters_next?
      unfold waitStep
      rcases hr : s.next? with ⟨_ | line, t⟩
      · rw [hr] at hhead hhands hwaiters
        have hplace : t.place who = s.place who := congrArg (List.filter _) hwaiters
        have hsame : t.waiting = s.waiting := hhands.waiting.symm
        exact ⟨hplace ▸ h, fun _ => hsame.trans (List.head?_eq_none_iff.mp hhead)⟩
      · exact trivial
  | checking =>
      unfold waitStep
      dsimp only
      split
      next hraised => exact hraised
      next hraised =>
        exact ⟨h.1, fun hunwarned => ⟨h.2 hunwarned, Bool.eq_false_iff.mpr hraised⟩⟩
  | lookingAgain => exact trivial
  | parked =>
      unfold waitStep
      dsimp only
      split
      next => exact trivial
      next => exact h
  | done line => exact trivial

/-- A read that is done has what was first on the queue. It is done with nothing
    only after it has seen the flag. -/
theorem waitStep_done (hp : p.isDone = false) {line : Option LogLine}
    (h : (s.waitStep who p).2 = .done line) :
    line = s.waiting.head? ∧ (line = none → p = .lookingAgain) := by
  rw [head?_waiting]
  cases p with
  | registering => exact absurd h (by simp only [waitStep, reduceCtorEq, not_false_eq_true])
  | looking =>
      unfold waitStep at h
      rcases hr : s.next? with ⟨_ | found, t⟩
      · rw [hr] at h
        exact absurd h (by simp only [reduceCtorEq, not_false_eq_true])
      · rw [hr] at h
        rw [← WaitPhase.done.inj h]
        exact ⟨rfl, fun hnone => absurd hnone (Option.some_ne_none _)⟩
  | checking =>
      unfold waitStep at h
      dsimp only at h
      split at h
      next => exact absurd h (by simp only [reduceCtorEq, not_false_eq_true])
      next => exact absurd h (by simp only [reduceCtorEq, not_false_eq_true])
  | lookingAgain => exact ⟨(WaitPhase.done.inj h).symm, fun _ => rfl⟩
  | parked =>
      unfold waitStep at h
      dsimp only at h
      split at h
      next => exact absurd h (by simp only [reduceCtorEq, not_false_eq_true])
      next => exact absurd h (by simp only [reduceCtorEq, not_false_eq_true])
  | done line => exact absurd hp.symm Bool.false_ne_true

/-- A read that begins takes the next line at once if there is one. -/
theorem hands_beginRead (s : LogStream) (timeout : Duration) :
    s.Hands (s.beginRead timeout).1 (s.beginRead timeout).2.line?.toList := by
  unfold beginRead
  split
  next => exact s.hands_next?
  next => exact hands_waiters s s.waiters

/-- A read that begins has registered nowhere yet. -/
theorem waiters_beginRead (s : LogStream) (timeout : Duration) :
    (s.beginRead timeout).1.waiters = s.waiters := by
  unfold beginRead
  split
  next => exact s.waiters_next?
  next => rfl

end LogStream

/-- The traffic is a step of a read. -/
def Traffic.isWait : Traffic → Bool
  | await _ => true
  | step _ => true
  | expire _ => true
  | _ => false

/-- Everyone who reads is alert. -/
def Outlet.Alert (o : Outlet) : Prop :=
  ∀ who, o.job.stream.Alert who (o.phase who)

namespace Outlet

variable {o : Outlet}

/-- One consumer does something, and all others stand where they stood. -/
theorem Alert.turn (h : o.Alert) {id : Nat} {lines : List LogLine} {stream : LogStream}
    {p : WaitPhase} (hhands : o.job.stream.Hands stream lines)
    (hplace : ∀ who, who ≠ id → stream.place who = o.job.stream.place who)
    (hown : stream.Alert id p) : ((o.took id lines stream).moved id p).Alert := by
  intro who
  dsimp only [moved, took]
  split
  next hwho => exact hwho ▸ hown
  next hwho => exact (h who).of_hands hhands (hplace who hwho)

/-- The same of all consumers at once. -/
theorem Alert.of_hands (h : o.Alert) {lines : List LogLine} {stream : LogStream} {o' : Outlet}
    (hhands : o.job.stream.Hands stream lines) (hwaiters : stream.waiters = o.job.stream.waiters)
    (hstream : o'.job.stream = stream) (hphase : o'.phase = o.phase) : o'.Alert := by
  intro who
  rw [hstream, hphase]
  exact (h who).of_hands hhands (congrArg (List.filter _) hwaiters)

/-- Whatever happens at an outlet, nobody who waits there is left unwarned. The
    induction over runs in the module on waking rests on this step. -/
theorem alert_see (h : o.Alert) (traffic : Traffic) : (o.see traffic).Alert := by
  cases traffic with
  | input input =>
      rw [see]
      split
      next hw => exact fun who => (h who).of_take hw input
      next => exact h
  | write =>
      rw [see]
      split
      next => exact h
      next => exact fun who => (h who).of_act
  | pick who =>
      exact h.of_hands o.job.stream.hands_next? o.job.stream.waiters_next? rfl rfl
  | drain who => exact h.of_hands o.job.stream.hands_drain rfl rfl rfl
  | poll who => exact h.of_hands o.job.stream.hands_drain rfl rfl rfl
  | await id =>
      rw [see]
      split
      next =>
        intro who
        dsimp only [moved]
        split
        next => exact trivial
        next => exact h who
      next => exact h
  | step id =>
      rw [see]
      split
      next => exact h
      -- A read that is done takes no more steps, so this one is under way.
      next hp =>
        exact h.turn (o.job.stream.hands_waitStep id (Bool.eq_false_iff.mpr hp))
          (fun _ hwho => o.job.stream.place_waitStep _ hwho) (LogStream.alert_waitStep (h id))
  | expire id =>
      rw [see]
      split
      next =>
        exact h.turn (o.job.stream.hands_expire id)
          (fun _ hwho => o.job.stream.place_next?_leave hwho) trivial
      next => exact h
  | leave id =>
      exact h.turn (o.job.stream.hands_waiters _)
        (fun _ hwho => o.job.stream.place_leave hwho) trivial

/-- What was taken stays taken. -/
theorem takings_see (o : Outlet) (traffic : Traffic) :
    ∃ more, (o.see traffic).takings = o.takings ++ more := by
  have hsame : ∃ more, o.takings = o.takings ++ more := ⟨[], (List.append_nil _).symm⟩
  cases traffic with
  | input input =>
      rw [see]
      split
      next => exact hsame
      next => exact hsame
  | write =>
      rw [see]
      split
      next => exact hsame
      next => exact hsame
  | pick who => exact ⟨_, rfl⟩
  | drain who => exact ⟨_, rfl⟩
  | poll who => exact ⟨_, rfl⟩
  | await who =>
      rw [see]
      split
      next => exact hsame
      next => exact hsame
  | step who =>
      rw [see]
      split
      next => exact hsame
      next => exact ⟨_, rfl⟩
  | expire who =>
      rw [see]
      split
      next => exact ⟨_, rfl⟩
      next => exact hsame
  | leave who => exact ⟨_, rfl⟩

/-- What is no step of a read begins none. -/
theorem isDone_of_see {traffic : Traffic} (hwait : traffic.isWait = false) {who : Nat}
    (h : ((o.see traffic).phase who).isDone = false) : (o.phase who).isDone = false := by
  cases traffic with
  | input input =>
      rw [see] at h
      split at h
      next => exact h
      next => exact h
  | write =>
      rw [see] at h
      split at h
      next => exact h
      next => exact h
  | pick id => exact h
  | drain id => exact h
  | poll id => exact h
  | await id => exact absurd hwait.symm Bool.false_ne_true
  | step id => exact absurd hwait.symm Bool.false_ne_true
  | expire id => exact absurd hwait.symm Bool.false_ne_true
  | leave id =>
      dsimp only [see, moved, took] at h
      split at h
      next => exact absurd h.symm Bool.false_ne_true
      next => exact h

end Outlet

end SoftPlc
