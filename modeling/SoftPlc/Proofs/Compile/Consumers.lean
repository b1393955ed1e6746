import SoftPlc.Compile.Waiting
import SoftPlc.Proofs.Compile.Polling
import SoftPlc.Proofs.Compile.Reading

/-!
# Who gets which line

Any number of consumers take lines off the queue of a job, each in its own
way: one takes a line if there is one, another waits for it, another takes
everything at once, and the output may be polled meanwhile. The reader adds to
the queue between any two of their steps. A wait is made of several steps
itself, and all of these may be interleaved with everything else.

`Outlet` keeps who has taken what, in the order of taking, and what every poll
has returned. All ways of taking come to one thing: the stream hands out the
first of its lines, and is otherwise what it was but for the list of those who
wait. This is `Hands`, and it is all that is said of each of them. It follows
that what was taken, followed by what is on the queue, is what was ever
queued.

The text of a job is a second copy of the lines that polls have taken. If
nobody else takes any, it is all that was queued. And once the flag is up that
is final, so it is what the transcript of the output says, whatever the
compiler still writes: the reader's account has nothing ahead of it for the
queue any more.

## Main definitions

* `Traffic`: Something that happens around a job.
* `Outlet`: A job, with what was taken and polled.
* `Outlet.Continues`: How the input may go on.
* `LogStream.Hands`: A stream hands out lines.
* `Outlet.Sound`: What is true at any moment.

## Theorems

* `LogStream.hands_waitStep`, `LogStream.hands_next?`, `LogStream.hands_drain`:
  What consumers do.
* `Outlet.sound_after`: What all runs keep.
* `Outlet.queued_of_terminal`: What was queued when the stream has ended.
* `lines_handed_out`: Each line goes to one consumer, in order.
-/

namespace SoftPlc

/-- Something that happens around a job. -/
inductive Traffic where
  /-- The reader takes input, if it waits for some. -/
  | input (input : StreamInput)
  /-- The reader makes its next write, if it has one to make. -/
  | write
  /-- A consumer takes a line if there is one, and does not wait. -/
  | pick (who : Nat)
  /-- A consumer takes every line. -/
  | drain (who : Nat)
  /-- The output is polled. -/
  | poll (who : Nat)
  /-- A consumer begins to wait for a line, unless it does so already. -/
  | await (who : Nat)
  /-- A consumer that waits makes its next step. -/
  | step (who : Nat)
  /-- The time of a consumer that waits is up. -/
  | expire (who : Nat)
  /-- A consumer does not wait any more. -/
  | leave (who : Nat)
  deriving DecidableEq, Repr

/-- A line that was taken. -/
structure Taking where
  who : Nat
  /-- It was taken by a poll. -/
  polled : Bool
  line : LogLine
  deriving DecidableEq, Repr

/-- The text of the lines that were taken by polls. -/
def Taking.polledText (takings : List Taking) : String :=
  String.join ((takings.filter Taking.polled).map fun t => t.line.text)

/-- The line that a wait has come to. -/
def WaitPhase.line? : WaitPhase → Option LogLine
  | done line => line
  | _ => none

/-- The wait is over. -/
def WaitPhase.isDone : WaitPhase → Bool
  | done _ => true
  | _ => false

/-- The bytes of an input. -/
def StreamInput.bytes : StreamInput → List UInt8
  | byte b => [b]
  | _ => []

/-- The end of the input, if it is one. -/
def StreamInput.closing? : StreamInput → Option Closing
  | failed reason => if reason.isInterrupted then none else some (.failed reason)
  | ended => some .ended
  | _ => none

/-- A job, with what was taken off its queue and what its polls have returned. -/
structure Outlet where
  job : Job
  /-- Where each consumer stands that waits, or has waited. -/
  phase : Nat → WaitPhase := fun _ => .done none
  /-- What was taken, oldest first. -/
  takings : List Taking := []
  /-- What each poll has returned, and how many lines were taken by then. -/
  polls : List (String × Nat) := []
  /-- The bytes that the reader was given. -/
  fed : List UInt8 := []
  /-- How its input came to its end, once it has. -/
  closing : Option Closing := none

namespace Outlet

/-- A new job for a source. -/
def start (source : List UInt8) : Outlet :=
  { job := .start source }

/-- A consumer has taken lines. -/
def took (o : Outlet) (who : Nat) (lines : List LogLine) (stream : LogStream) : Outlet :=
  { o with
    job := { o.job with stream }
    takings := o.takings ++ lines.map (Taking.mk who false) }

/-- A consumer stands somewhere else now. -/
def moved (o : Outlet) (who : Nat) (phase : WaitPhase) : Outlet :=
  { o with phase := fun k => if k = who then phase else o.phase k }

/-- Something happens. -/
def see (o : Outlet) : Traffic → Outlet
  | .input input =>
    if o.job.stream.awaitsInput then
      { o with
        job := { o.job with stream := (o.job.stream.take input).1 }
        fed := o.fed ++ input.bytes
        closing := o.closing <|> input.closing? }
    else o
  | .write =>
    if o.job.stream.awaitsInput || o.job.stream.isStopped then o
    else { o with job := { o.job with stream := o.job.stream.act.1 } }
  | .pick who => o.took who o.job.stream.next?.1.toList o.job.stream.next?.2
  | .drain who => o.took who o.job.stream.drain.1 o.job.stream.drain.2
  | .poll who =>
    { o with
      job := o.job.pollOutput.2
      takings := o.takings ++ o.job.stream.waiting.map (Taking.mk who true)
      polls := o.polls ++
        [(o.job.pollOutput.1, o.takings.length + o.job.stream.waiting.length)] }
  | .await who => if (o.phase who).isDone then o.moved who .registering else o
  | .step who =>
    if (o.phase who).isDone then o
    else
      let r := o.job.stream.waitStep who (o.phase who)
      (o.took who r.2.line?.toList r.1).moved who r.2
  | .expire who =>
    if o.phase who = .parked then
      let r := o.job.stream.expire who
      (o.took who r.1.toList r.2).moved who (.done r.1)
    else o
  | .leave who => (o.took who [] (o.job.stream.leave who)).moved who (.done none)

/-- Several things happen in order. -/
def after (o : Outlet) (traffic : List Traffic) : Outlet :=
  traffic.foldl see o

/-- The bytes that may come, and the end that the input may have. -/
def Continues (o : Outlet) (rest : List UInt8) (closing : Closing) : Prop :=
  o.closing = none ∨ rest = [] ∧ o.closing = some closing

end Outlet

namespace LogStream

variable {s t u : LogStream}

/-- A stream hands out lines, and is otherwise the same but for those who
    wait. -/
structure Hands (s t : LogStream) (lines : List LogLine) : Prop where
  same : t = { s with taken := t.taken, waiters := t.waiters }
  bound : s.taken ≤ s.queued.size → t.taken ≤ s.queued.size
  waiting : s.waiting = lines ++ t.waiting

/-- Handing lines out takes none off the record of what was queued. -/
theorem Hands.queued {lines : List LogLine} (h : s.Hands t lines) : t.queued = s.queued := by
  rw [h.same]

/-- What is handed out in two goes is handed out in one. -/
theorem Hands.trans {first second : List LogLine} (h : s.Hands t first) (h' : t.Hands u second) :
    s.Hands u (first ++ second) where
  same := by
    rw [h'.same, h.same]
  bound := fun hs => h.queued ▸ h'.bound (h.queued ▸ h.bound hs)
  waiting := by
    rw [h.waiting, h'.waiting, List.append_assoc]

/-- Whoever comes or goes takes nothing. -/
theorem hands_waiters (s : LogStream) (waiters : List Waiter) :
    s.Hands { s with waiters } [] where
  same := rfl
  bound := fun h => h
  waiting := rfl

/-- Every line that was ever queued has its place in the history. -/
theorem length_history (s : LogStream) : s.history.length = s.queued.size := by
  rw [history, LogLine.numbered, List.length_map, List.length_zipIdx, Array.length_toList]

/-- The next line is the first in the history that was not taken. -/
theorem front?_eq (s : LogStream) : s.front? = s.history[s.taken]? := by
  rw [front?, history, LogLine.numbered, List.getElem?_map, List.getElem?_zipIdx,
    Array.getElem?_toList, Option.map_map, Nat.zero_add]
  rfl

/-- Taking the next line hands out that line, or nothing. -/
theorem hands_next? (s : LogStream) : s.Hands s.next?.2 s.next?.1.toList := by
  have hdrop : s.waiting = s.front?.toList ++ s.history.drop (s.taken + 1) := by
    rw [waiting_eq_drop_history, front?_eq]
    exact List.drop_eq_getElem?_toList_append
  unfold next?
  cases hf : s.front? with
  | none =>
      exact hands_waiters s s.waiters
  | some line =>
      refine ⟨rfl, fun _ => ?_, ?_⟩
      · rw [front?, Option.map_eq_some_iff] at hf
        rcases hf with ⟨text, htext, _⟩
        exact (Array.getElem?_eq_some_iff.mp htext).1
      · rw [hdrop, hf, waiting_eq_drop_history]
        rfl

/-- Whoever has taken a line may leave with it. -/
theorem Hands.leave {lines : List LogLine} (h : s.Hands t lines) (id : Nat) :
    s.Hands (t.leave id) lines := by
  have hleave := h.trans (hands_waiters t (t.leave id).waiters)
  rw [List.append_nil] at hleave
  exact hleave

/-- A drain hands out all lines that wait. -/
theorem hands_drain (s : LogStream) : s.Hands s.drain.2 s.drain.1 where
  same := rfl
  bound := fun _ => Nat.le_refl _
  waiting := by
    have hnone : s.drain.2.waiting = [] := by
      rw [waiting_eq_drop_history, List.drop_eq_nil_iff, length_history]
      exact Nat.le_refl _
    rw [hnone, List.append_nil]
    rfl

/-- A step of a wait hands out the line that the wait has come to, if it has. -/
theorem hands_waitStep (s : LogStream) (id : Nat) {p : WaitPhase} (hp : p.isDone = false) :
    s.Hands (s.waitStep id p).1 (s.waitStep id p).2.line?.toList := by
  cases p with
  | registering => exact hands_waiters s _
  | looking =>
      have hnext := s.hands_next?
      unfold waitStep
      rcases hr : s.next? with ⟨_ | line, t⟩
      · rw [hr] at hnext
        exact hnext
      · rw [hr] at hnext
        exact hnext.leave id
  | checking =>
      unfold waitStep
      dsimp only
      split
      next => exact hands_waiters s s.waiters
      next => exact hands_waiters s s.waiters
  | lookingAgain => exact s.hands_next?.leave id
  | parked =>
      unfold waitStep
      dsimp only
      split
      next => exact hands_waiters s s.waiters
      next => exact hands_waiters s s.waiters
  | done line => exact absurd hp.symm Bool.false_ne_true

/-- A read whose time has run out takes a line all the same if one has come
    meanwhile. -/
theorem hands_expire (s : LogStream) (id : Nat) :
    s.Hands (s.expire id).2 (s.expire id).1.toList :=
  s.hands_next?.leave id

/-- A reader that awaits input has not come to the end of it. -/
theorem isEnding_of_awaitsInput (h : s.awaitsInput = true) : s.isEnding = false := by
  rcases awaitsInput_cases s h with ⟨hopen, hp | hp⟩
  · rw [isEnding, hopen, hp]
    rfl
  · rw [isEnding, hopen, hp]
    rfl

theorem isEnding_of_closing? {input : StreamInput} (hw : s.awaitsInput = true)
    (h : input.closing? ≠ none) : (s.take input).1.isEnding = true := by
  cases input with
  | byte b => exact absurd rfl h
  | interrupted => exact absurd rfl h
  | failed reason =>
      by_cases hr : reason.isInterrupted = true
      · exact absurd (if_pos hr) h
      · have hfinal : (Closing.failed reason).IsFinal := Bool.eq_false_iff.mpr hr
        exact isEnding_take s hfinal hw
  | ended =>
      have hfinal : Closing.ended.IsFinal := trivial
      exact isEnding_take s hfinal hw

end LogStream

theorem Taking.polledText_append (a b : List Taking) :
    polledText (a ++ b) = polledText a ++ polledText b := by
  rw [polledText, List.filter_append, List.map_append, String.join_append]
  rfl

theorem Taking.polledText_taken (who : Nat) (lines : List LogLine) :
    polledText (lines.map (Taking.mk who false)) = "" := by
  have hnone : (lines.map (Taking.mk who false)).filter Taking.polled = [] := by
    refine List.filter_eq_nil_iff.mpr fun taking hmem => ?_
    rcases List.mem_map.mp hmem with ⟨line, _, rfl⟩
    exact Bool.false_ne_true
  rw [polledText, hnone]
  rfl

theorem Taking.polledText_polled (who : Nat) (lines : List LogLine) :
    polledText (lines.map (Taking.mk who true)) = String.join (lines.map LogLine.text) := by
  have hall : (lines.map (Taking.mk who true)).filter Taking.polled
      = lines.map (Taking.mk who true) := by
    refine List.filter_eq_self.mpr fun taking hmem => ?_
    rcases List.mem_map.mp hmem with ⟨line, _, rfl⟩
    rfl
  rw [polledText, hall, List.map_map]
  rfl

theorem Taking.polledText_of_all {takings : List Taking}
    (h : ∀ taking ∈ takings, taking.polled = true) :
    polledText takings = String.join ((takings.map Taking.line).map LogLine.text) := by
  rw [polledText, List.filter_eq_self.mpr h, List.map_map]
  rfl

namespace Outlet

open LogStream (Hands)

variable {o : Outlet}

/-- What is true at any moment: nothing is lost or taken twice, the texts of
    polls are those of the lines that polls have taken, and the reader will come
    to the transcript of the whole output. -/
structure Sound (o : Outlet) : Prop where
  bound : o.job.stream.taken ≤ o.job.stream.queued.size
  takings : o.takings.map Taking.line ++ o.job.stream.waiting = o.job.stream.history
  polled : o.job.polled = Taking.polledText o.takings
  polls : ∀ poll ∈ o.polls, poll.2 ≤ o.takings.length ∧
    poll.1 = Taking.polledText (o.takings.take poll.2)
  ordered : o.polls.Pairwise fun earlier later => earlier.2 ≤ later.2
  reader : o.job.stream.Sound
  account : ∃ published, ∀ rest closing, o.Continues rest closing →
    o.job.stream.account published (o.job.stream.ahead rest closing)
      = Transcript.ofOutput (o.fed ++ rest) closing
  ending : o.closing ≠ none → o.job.stream.isEnding = true

theorem sound_start (source : List UInt8) : (start source).Sound where
  bound := Nat.le_refl 0
  takings := rfl
  polled := rfl
  polls := fun _ h => absurd h List.not_mem_nil
  ordered := List.Pairwise.nil
  reader := LogStream.sound_initial
  account := ⟨[], fun rest closing _ => (Transcript.ofOutput_eq rest closing).symm⟩
  ending := fun h => absurd rfl h

/-- What a reader does leaves what was taken as it is. -/
theorem Sound.of_reader (h : o.Sound) {stream : LogStream}
    (hqueued : ∃ more, stream.queued.toList = o.job.stream.queued.toList ++ more)
    (htaken : stream.taken = o.job.stream.taken) :
    stream.taken ≤ stream.queued.size ∧
      o.takings.map Taking.line ++ stream.waiting = stream.history := by
  rcases hqueued with ⟨more, hmore⟩
  have hbound := h.bound
  have htakings := h.takings
  rw [LogStream.waiting_eq_drop_history] at htakings ⊢
  have hlength := o.job.stream.length_history
  have hhistory : stream.history = o.job.stream.history
      ++ (more.zipIdx o.job.stream.queued.toList.length).map fun line => ⟨line.2, line.1⟩ := by
    rw [LogStream.history, LogLine.numbered, hmore, List.zipIdx_append, List.map_append,
      Nat.zero_add]
    rfl
  constructor
  · rw [htaken, ← Array.length_toList, hmore, List.length_append, Array.length_toList]
    omega
  · rw [htaken, hhistory, List.drop_append_of_le_length (by omega), ← List.append_assoc, htakings]

/-- What consumers do is nothing to the reader. -/
theorem Sound.of_hands (h : o.Sound) {who : Nat} {polled : Bool} {lines : List LogLine}
    (job : Job) (hhands : o.job.stream.Hands job.stream lines)
    (htext : job.polled = o.job.polled ++ Taking.polledText (lines.map (Taking.mk who polled)))
    {polls : List (String × Nat)}
    (hpolls : polls = o.polls ∨
      polls = o.polls ++ [(job.polled, o.takings.length + lines.length)]) :
    Sound { o with
      job
      takings := o.takings ++ lines.map (Taking.mk who polled)
      polls } := by
  have hqueued := hhands.queued
  have hsame := hhands.same
  have hpolled : job.polled
      = Taking.polledText (o.takings ++ lines.map (Taking.mk who polled)) := by
    rw [Taking.polledText_append, ← h.polled]
    exact htext
  -- Earlier polls are about the takings of their time, which stay in front.
  have hold : ∀ poll ∈ o.polls, poll.2 ≤ (o.takings ++ lines.map (Taking.mk who polled)).length ∧
      poll.1 = Taking.polledText ((o.takings ++ lines.map (Taking.mk who polled)).take poll.2) := by
    intro poll hpoll
    rcases h.polls poll hpoll with ⟨hle, htext⟩
    rw [List.length_append, List.take_append_of_le_length hle]
    exact ⟨Nat.le_add_right_of_le hle, htext⟩
  refine ⟨?_, ?_, hpolled, ?_, ?_, ?_, ?_, ?_⟩
  · dsimp only
    rw [hqueued]
    exact hhands.bound h.bound
  · have hline : (lines.map (Taking.mk who polled)).map Taking.line = lines := by
      rw [List.map_map]
      exact List.map_id lines
    dsimp only
    rw [List.map_append, hline, List.append_assoc, ← hhands.waiting, h.takings,
      LogStream.history, LogStream.history, hqueued]
  · rcases hpolls with rfl | rfl
    · exact hold
    · intro poll hpoll
      rcases List.mem_append.mp hpoll with hpoll | hpoll
      · exact hold poll hpoll
      · rw [List.mem_singleton.mp hpoll]
        have hlength : (o.takings ++ lines.map (Taking.mk who polled)).length
            = o.takings.length + lines.length := by
          rw [List.length_append, List.length_map]
        dsimp only
        rw [← hlength, List.take_length]
        exact ⟨Nat.le_refl _, hpolled⟩
  · rcases hpolls with rfl | rfl
    · exact h.ordered
    · refine List.pairwise_append.mpr ⟨h.ordered, List.pairwise_singleton _ _, ?_⟩
      intro earlier hearlier later hlater
      rw [List.mem_singleton.mp hlater]
      exact Nat.le_add_right_of_le (h.polls earlier hearlier).1
  · dsimp only
    rw [hsame]
    exact ⟨h.reader.unfinished, h.reader.ended, h.reader.stored, h.reader.raised⟩
  · dsimp only
    rw [hsame]
    exact h.account
  · dsimp only
    rw [hsame]
    exact h.ending

/-- Whoever takes lines, the takings are what has been taken off the queue. All
    ways of taking are brought back to this one. -/
theorem Sound.took (h : o.Sound) (who : Nat) {lines : List LogLine} {stream : LogStream}
    (hhands : o.job.stream.Hands stream lines) : (o.took who lines stream).Sound := by
  refine h.of_hands { o.job with stream } hhands ?_ (.inl rfl)
  rw [Taking.polledText_taken]
  exact (String.append_empty).symm

/-- Where consumers stand matters to nobody else. -/
theorem Sound.moved (h : o.Sound) (who : Nat) (phase : WaitPhase) : (o.moved who phase).Sound :=
  ⟨h.bound, h.takings, h.polled, h.polls, h.ordered, h.reader, h.account, h.ending⟩

/-- A reader that awaits input may be given any. -/
theorem Sound.closing_of_awaitsInput (h : o.Sound) (hw : o.job.stream.awaitsInput = true) :
    o.closing = none := by
  cases hc : o.closing with
  | none => rfl
  | some closing =>
      have hending := h.ending (by rw [hc]; exact Option.some_ne_none closing)
      rw [LogStream.isEnding_of_awaitsInput hw] at hending
      exact absurd hending Bool.false_ne_true

/-- An input that ends the stream is the end that the account was to have, and
    any other moves bytes from what may come to what has. -/
theorem Sound.account_input (h : o.Sound) (hw : o.job.stream.awaitsInput = true)
    (input : StreamInput) :
    ∃ published, ∀ rest closing,
      (input.closing? = none ∨ rest = [] ∧ input.closing? = some closing) →
      (o.job.stream.take input).1.account published
          ((o.job.stream.take input).1.ahead rest closing)
        = Transcript.ofOutput (o.fed ++ input.bytes ++ rest) closing := by
  rcases h.account with ⟨published, haccount⟩
  -- The reader awaits input, so any rest and any closing may still come.
  have hany : ∀ rest closing, o.job.stream.account published (o.job.stream.ahead rest closing)
      = Transcript.ofOutput (o.fed ++ rest) closing := fun rest closing =>
    haccount rest closing (.inl (h.closing_of_awaitsInput hw))
  cases input with
  | byte b =>
      refine ⟨published ++ (o.job.stream.take (.byte b)).2.toList, fun rest closing _ => ?_⟩
      rw [LogStream.account_take_byte o.job.stream b rest closing published h.reader hw, hany,
        List.append_assoc]
      rfl
  | interrupted =>
      refine ⟨published, fun rest closing _ => ?_⟩
      simp only [StreamInput.bytes, List.append_nil]
      exact hany rest closing
  | failed reason =>
      by_cases hr : reason.isInterrupted = true
      · -- The read is made again.
        have htake : o.job.stream.take (.failed reason) = (o.job.stream, none) := if_pos hr
        refine ⟨published, fun rest closing _ => ?_⟩
        rw [htake]
        simp only [StreamInput.bytes, List.append_nil]
        exact hany rest closing
      · have hfinal := Bool.eq_false_iff.mpr hr
        have hclosing : StreamInput.closing? (.failed reason) = some (.failed reason) := if_neg hr
        refine ⟨published ++ (o.job.stream.take (.failed reason)).2.toList,
          fun rest closing hc => ?_⟩
        rcases hc with hc | ⟨rfl, hc⟩
        · exact absurd (hclosing.symm.trans hc) (Option.some_ne_none _)
        · rw [← Option.some.inj (hclosing.symm.trans hc),
            LogStream.account_take_failed o.job.stream reason published _ h.reader hw hfinal, hany]
          simp only [StreamInput.bytes, List.append_nil]
  | ended =>
      refine ⟨published ++ (o.job.stream.take .ended).2.toList, fun rest closing hc => ?_⟩
      rcases hc with hc | ⟨rfl, hc⟩
      · exact absurd hc (Option.some_ne_none _)
      · rw [← Option.some.inj hc, LogStream.account_take_ended o.job.stream published h.reader hw,
          hany]
        simp only [StreamInput.bytes, List.append_nil]

/-- Input for the reader changes neither the queue nor what was taken of it. -/
theorem Sound.input (h : o.Sound) (input : StreamInput) : (o.see (.input input)).Sound := by
  rw [Outlet.see]
  split
  next hw =>
    rcases LogStream.shared_take o.job.stream input with ⟨hqueued, htaken, _⟩
    rcases h.of_reader ⟨[], by rw [hqueued, List.append_nil]⟩ htaken with ⟨hbound, htakings⟩
    rcases h.account_input hw input with ⟨published, haccount⟩
    have hclosing : (o.closing <|> input.closing?) = input.closing? := by
      rw [h.closing_of_awaitsInput hw]
      rfl
    refine ⟨hbound, htakings, h.polled, h.polls, h.ordered,
      LogStream.sound_take _ input h.reader hw, ?_, ?_⟩
    · refine ⟨published, fun rest closing hc => haccount rest closing ?_⟩
      rw [Continues] at hc
      dsimp only at hc
      rw [hclosing] at hc
      exact hc
    · dsimp only
      rw [hclosing]
      exact LogStream.isEnding_of_closing? hw
  next => exact h

/-- A write of the reader adds to the queue, behind everything that was taken. -/
theorem Sound.write (h : o.Sound) : (o.see .write).Sound := by
  rw [Outlet.see]
  split
  next => exact h
  next =>
    rcases LogStream.shared_act o.job.stream with ⟨hqueued, htaken, _⟩
    rcases h.of_reader hqueued htaken with ⟨hbound, htakings⟩
    refine ⟨hbound, htakings, h.polled, h.polls, h.ordered, LogStream.sound_act _ h.reader, ?_,
      fun hc => LogStream.isEnding_act _ (h.ending hc)⟩
    rcases h.account with ⟨published, haccount⟩
    refine ⟨published ++ o.job.stream.act.2.toList, fun rest closing hc => ?_⟩
    dsimp only
    rw [LogStream.account_act]
    exact haccount rest closing hc

/-- Whatever happens, nothing of this changes. -/
theorem Sound.see (h : o.Sound) (traffic : Traffic) : (o.see traffic).Sound := by
  cases traffic with
  | input input => exact h.input input
  | write => exact h.write
  | pick who => exact h.took who o.job.stream.hands_next?
  | drain who => exact h.took who o.job.stream.hands_drain
  | poll who =>
      refine h.of_hands o.job.pollOutput.2 o.job.stream.hands_drain ?_ (.inr rfl)
      rw [Taking.polledText_polled]
      rfl
  | await who =>
      rw [Outlet.see]
      split
      next => exact h.moved who _
      next => exact h
  | step who =>
      rw [Outlet.see]
      split
      next => exact h
      next hp =>
        have hhands := o.job.stream.hands_waitStep who (Bool.eq_false_iff.mpr hp)
        exact (h.took who hhands).moved who _
  | expire who =>
      rw [Outlet.see]
      split
      next => exact (h.took who (o.job.stream.hands_expire who)).moved who _
      next => exact h
  | leave who => exact (h.took who (o.job.stream.hands_waiters _)).moved who _

/-- However a run goes, nothing of this changes. -/
theorem sound_after (h : o.Sound) (traffic : List Traffic) : (o.after traffic).Sound := by
  induction traffic generalizing o with
  | nil => exact h
  | cons first rest ih => exact ih (h.see first)

/-- What was taken and what still waits is as many as were queued. -/
theorem Sound.count (h : o.Sound) :
    o.takings.length + o.job.stream.waiting.length = o.job.stream.queued.size := by
  rw [← o.job.stream.length_history, ← h.takings, List.length_append, List.length_map]

/-- What is taken first is what was queued first. -/
theorem Sound.position (h : o.Sound) {i : Nat} {taking : Taking}
    (hi : o.takings[i]? = some taking) : taking.line.position = i := by
  have hhistory : o.job.stream.history[i]? = some taking.line := by
    have hlt : i < (o.takings.map Taking.line).length := by
      rw [List.length_map]
      exact (List.getElem?_eq_some_iff.mp hi).1
    rw [← h.takings, List.getElem?_append_left hlt, List.getElem?_map, hi]
    rfl
  rw [LogStream.history, LogLine.numbered, List.getElem?_map, List.getElem?_zipIdx,
    Option.map_map, Option.map_eq_some_iff] at hhistory
  rcases hhistory with ⟨text, _, hline⟩
  rw [← hline]
  exact Nat.zero_add i

/-- A later poll returns more than an earlier one, or the same. -/
theorem Sound.earlier (h : o.Sound) {i j : Nat} {earlier later : String × Nat}
    (hij : i ≤ j) (hi : o.polls[i]? = some earlier) (hj : o.polls[j]? = some later) :
    ∃ more, later.1 = earlier.1 ++ more := by
  rcases h.polls earlier (List.mem_of_getElem? hi) with ⟨_, hearlier⟩
  rcases h.polls later (List.mem_of_getElem? hj) with ⟨_, hlater⟩
  have hle : earlier.2 ≤ later.2 := by
    rcases Nat.lt_or_eq_of_le hij with hlt | rfl
    · rcases List.getElem?_eq_some_iff.mp hi with ⟨hilt, rfl⟩
      rcases List.getElem?_eq_some_iff.mp hj with ⟨hjlt, rfl⟩
      exact List.pairwise_iff_getElem.mp h.ordered i j hilt hjlt hlt
    · rw [Option.some.inj (hi.symm.trans hj)]
  refine ⟨Taking.polledText ((o.takings.drop earlier.2).take (later.2 - earlier.2)), ?_⟩
  have hsplit : later.2 = earlier.2 + (later.2 - earlier.2) := by omega
  rw [hlater, hearlier, ← Taking.polledText_append, ← List.take_add, ← hsplit]

/-- If only polls take lines, they have all that was queued. -/
theorem Sound.text (h : o.Sound) (hpolls : ∀ taking ∈ o.takings, taking.polled = true) :
    o.job.pollOutput.1 = String.join o.job.stream.queued.toList := by
  have htext : o.job.pollOutput.1
      = o.job.polled ++ String.join (o.job.stream.waiting.map LogLine.text) := rfl
  have hhistory : o.job.stream.history.map LogLine.text = o.job.stream.queued.toList := by
    rw [LogStream.history, LogLine.numbered, List.map_map]
    exact List.zipIdx_map_fst 0 _
  rw [htext, h.polled, Taking.polledText_of_all hpolls, ← String.join_append, ← List.map_append,
    h.takings, hhistory]

/-- When the stream has ended, what was queued is what the transcript says of
    any output that begins with what was read. -/
theorem Sound.queued_of_terminal (h : o.Sound) (hended : o.job.isTerminal = true)
    {rest : List UInt8} {closing : Closing} (hc : o.Continues rest closing) :
    o.job.stream.queued.toList = (Transcript.ofOutput (o.fed ++ rest) closing).queued := by
  rcases h.account with ⟨published, haccount⟩
  have hflag : o.job.stream.hasFlag = true := h.reader.raised.symm.trans hended
  have hnothing : (o.job.stream.outlook (o.job.stream.ahead rest closing)).queued = [] := by
    unfold LogStream.hasFlag at hflag
    unfold LogStream.outlook
    split at hflag
    next heq => rw [heq]
    next heq => rw [heq]
    next heq => rw [heq]
    next => exact absurd hflag Bool.false_ne_true
  have hqueued := congrArg Transcript.queued (haccount rest closing hc)
  rw [← hqueued, LogStream.account, Transcript.behind, hnothing, List.append_nil]

/-- Once the flag is up the reader does not queue anything. -/
theorem queued_act_of_flag {s : LogStream} (h : s.hasFlag = true) : s.act.1.queued = s.queued := by
  unfold LogStream.hasFlag at h
  unfold LogStream.act
  split at h
  next heq => rw [heq]; rfl
  next heq =>
    rw [heq]
    dsimp only
    split
    next => rfl
    next => rfl
  next heq => rw [heq]
  next => exact absurd h Bool.false_ne_true

/-- The stream has ended for good: nothing more is queued, the flag stays up,
    and who polls from now on has taken part in taking all there is. -/
structure Final (o o' : Outlet) : Prop where
  queued : o'.job.stream.queued = o.job.stream.queued
  terminal : o'.job.isTerminal = true
  polls : ∃ new, o'.polls = o.polls ++ new ∧ ∀ poll ∈ new, poll.2 = o.job.stream.queued.size

theorem Final.trans {o' o'' : Outlet} (h : o.Final o') (h' : o'.Final o'') : o.Final o'' where
  queued := h'.queued.trans h.queued
  terminal := h'.terminal
  polls := by
    rcases h.polls with ⟨new, hpolls, hnew⟩
    rcases h'.polls with ⟨newer, hpolls', hnewer⟩
    refine ⟨new ++ newer, by rw [hpolls', hpolls, List.append_assoc], fun poll hpoll => ?_⟩
    rcases List.mem_append.mp hpoll with hpoll | hpoll
    · exact hnew poll hpoll
    · rw [← h.queued]
      exact hnewer poll hpoll

/-- What polls nothing, and leaves the queue and the flag as they are, is final. -/
theorem Final.of_same {o' : Outlet} (hended : o.job.isTerminal = true)
    (hqueued : o'.job.stream.queued = o.job.stream.queued)
    (hraised : o.job.stream.raised = true → o'.job.stream.raised = true)
    (hpolls : o'.polls = o.polls) : o.Final o' where
  queued := hqueued
  terminal := hraised hended
  polls := ⟨[], by rw [hpolls, List.append_nil], fun _ h => absurd h List.not_mem_nil⟩

/-- After the end only consumers move, and they take lines off a queue that does
    not grow. -/
theorem Final.of_hands {o' : Outlet} {lines : List LogLine} (hended : o.job.isTerminal = true)
    (hhands : o.job.stream.Hands o'.job.stream lines) (hpolls : o'.polls = o.polls) :
    o.Final o' := by
  refine .of_same hended hhands.queued (fun hraised => ?_) hpolls
  rw [hhands.same]
  exact hraised

theorem Sound.final_see (h : o.Sound) (hended : o.job.isTerminal = true) (traffic : Traffic) :
    o.Final (o.see traffic) := by
  have hsame : o.Final o := .of_same hended rfl id rfl
  cases traffic with
  | input input =>
      rw [Outlet.see]
      split
      next =>
        rcases LogStream.shared_take o.job.stream input with ⟨hqueued, _, hraised⟩
        exact .of_same hended hqueued hraised.trans rfl
      next => exact hsame
  | write =>
      rw [Outlet.see]
      split
      next => exact hsame
      next =>
        -- The reader may still forward what comes behind a verdict, but queues nothing.
        have hflag := h.reader.raised.symm.trans hended
        exact .of_same hended (queued_act_of_flag hflag)
          (LogStream.shared_act o.job.stream).2.2 rfl
  | pick who => exact .of_hands hended o.job.stream.hands_next? rfl
  | drain who => exact .of_hands hended o.job.stream.hands_drain rfl
  | poll who =>
      refine ⟨rfl, hended, _, rfl, fun poll hpoll => ?_⟩
      rw [List.mem_singleton.mp hpoll]
      exact h.count
  | await who =>
      rw [Outlet.see]
      split
      next => exact .of_same hended rfl id rfl
      next => exact hsame
  | step who =>
      rw [Outlet.see]
      split
      next => exact hsame
      next hp =>
        exact .of_hands hended
          (o.job.stream.hands_waitStep who (Bool.eq_false_iff.mpr hp)) rfl
  | expire who =>
      rw [Outlet.see]
      split
      next => exact .of_hands hended (o.job.stream.hands_expire who) rfl
      next => exact hsame
  | leave who => exact .of_hands hended (o.job.stream.hands_waiters _) rfl

theorem Sound.final_after (h : o.Sound) (hended : o.job.isTerminal = true)
    (traffic : List Traffic) : o.Final (o.after traffic) := by
  induction traffic generalizing o with
  | nil => exact .of_same hended rfl id rfl
  | cons first rest ih =>
      have hfirst := h.final_see hended first
      exact hfirst.trans (ih (h.see first) hfirst.terminal)

/-- Whoever has polled when nothing more was to come has returned everything. -/
theorem Sound.poll_all (h : o.Sound) (hpolls : ∀ taking ∈ o.takings, taking.polled = true)
    {poll : String × Nat} (hpoll : poll ∈ o.polls) (hall : poll.2 = o.job.stream.queued.size) :
    poll.1 = String.join o.job.stream.queued.toList := by
  rcases h.polls poll hpoll with ⟨hle, htext⟩
  have hcount := h.count
  have hnone : o.job.stream.waiting = [] := List.length_eq_zero_iff.mp (by omega)
  have htaken : o.takings.take poll.2 = o.takings := List.take_of_length_le (by omega)
  have hpolled : o.job.pollOutput.1 = o.job.polled := by
    change o.job.polled ++ String.join (o.job.stream.waiting.map LogLine.text) = o.job.polled
    rw [hnone]
    exact String.append_empty
  rw [htext, htaken, ← h.polled, ← hpolled]
  exact h.text hpolls

end Outlet

/-- Whatever consumers do, the lines that were taken, in the order of taking,
    followed by those on the queue, are the lines that were queued; the n-th
    taken is the n-th of the stream. What a poll returns is the text of the lines
    that polls have taken by then, and begins with what an earlier poll has
    returned. If only polls take lines and the stream has ended, a poll returns
    all lines up to the end of the stream, whatever the rest of the output will
    be, and all later polls return the same. -/
theorem lines_handed_out (source : List UInt8) (traffic : List Traffic) :
    let o := (Outlet.start source).after traffic
    o.takings.map Taking.line ++ o.job.stream.waiting = o.job.stream.history ∧
    (∀ (n : Nat) (taking : Taking), o.takings[n]? = some taking → taking.line.position = n) ∧
    (∀ (j : Nat) (later : String × Nat), o.polls[j]? = some later →
      later.1 = Taking.polledText (o.takings.take later.2) ∧
      ∀ (i : Nat) (earlier : String × Nat), i ≤ j → o.polls[i]? = some earlier →
        ∃ more, later.1 = earlier.1 ++ more) ∧
    (o.job.isTerminal = true → (∀ taking ∈ o.takings, taking.polled = true) →
      (∀ rest closing, o.Continues rest closing →
        o.job.pollOutput.1 = String.join (Transcript.ofOutput (o.fed ++ rest) closing).queued) ∧
      ∀ more, (∀ taking ∈ (o.after more).takings, taking.polled = true) →
        ∀ poll ∈ (o.after more).polls.drop o.polls.length, poll.1 = o.job.pollOutput.1) := by
  intro o
  have ho : o.Sound := Outlet.sound_after (Outlet.sound_start source) traffic
  refine ⟨ho.takings, fun n taking => ho.position, fun j later hj => ⟨?_, ?_⟩,
    fun hended hpolls => ⟨fun rest closing hc => ?_, fun more hmore poll hpoll => ?_⟩⟩
  · exact (ho.polls later (List.mem_of_getElem? hj)).2
  · exact fun i earlier hij hi => ho.earlier hij hi hj
  · rw [ho.text hpolls, ho.queued_of_terminal hended hc]
  · have hafter := Outlet.sound_after ho more
    have hfinal := ho.final_after hended more
    rcases hfinal.polls with ⟨new, hnew, hcount⟩
    have hmem : poll ∈ new := by
      rw [hnew, List.drop_left] at hpoll
      exact hpoll
    have hin : poll ∈ (o.after more).polls := by
      rw [hnew]
      exact List.mem_append_right _ hmem
    rw [hafter.poll_all hmore hin (by rw [hfinal.queued]; exact hcount poll hmem), hfinal.queued,
      ho.text hpolls]

end SoftPlc
