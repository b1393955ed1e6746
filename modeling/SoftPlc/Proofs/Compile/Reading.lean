import SoftPlc.Proofs.Compile.Outlook

/-!
# Reading a whole output

A reader gets the output of a compiler in pieces that it has no say in: a read
may bring any number of bytes, end in the middle of a line, of a phrase or of
a code point, or be interrupted and bring nothing. Whatever the pieces are,
the reader ends up with the transcript of all bytes together.

The account of the reader is carried along. A read does not change it, and
after each read the reader makes its writes until it waits for the next, which
happens after few enough of them: `writesLeft` counts them down. At the end of
the input nothing is left to wait for, so the reader stops, and the account of
a reader that has stopped is what it has queued and published.

`reading_complete` states the result without transcripts, in terms of the
lines before the first that is no text.

## Main definitions

* `Read`: What one read brings.
* `LogStream.readThrough`: Reading an output up to its end.
* `LogStream.history`: Every line ever queued, with its position.
* `LogStream.Tells`: A reader will have told a transcript in the end.

## Theorems

* `LogStream.tells_consume_byte`, `LogStream.tells_consume_closing`: What one
  input keeps.
* `LogStream.tells_reads`: What any number of reads keeps.
* `LogStream.readThrough_tells`: The end of the input.
* `LogStream.reading_complete`: The reader does what it is specified to do.
-/

namespace SoftPlc

/-- Two lists of notices are published one after the other. -/
theorem Journal.publishAll_append (j : Journal) (a b : List Notice) :
    j.publishAll (a ++ b) = (j.publishAll a).publishAll b :=
  List.foldl_append

/-- Lines with their positions. -/
def LogLine.numbered (lines : List String) : List LogLine :=
  lines.zipIdx.map fun line => ⟨line.2, line.1⟩

/-- What one read brings. -/
inductive Read where
  | chunk (bytes : List UInt8)
  /-- Nothing; the read is made again. -/
  | interrupted
  deriving DecidableEq, Repr

/-- The bytes of a read. -/
def Read.bytes : Read → List UInt8
  | chunk bytes => bytes
  | interrupted => []

/-- The end of an input ends the reading, which an interruption does not. -/
def Closing.IsFinal : Closing → Prop
  | ended => True
  | failed reason => reason.isInterrupted = false

namespace LogStream

/-- The reader deals with what one read brings. -/
def read (sj : WithJournal) : Read → WithJournal
  | .chunk bytes => consumeBytes sj bytes
  | .interrupted => consume sj .interrupted

/-- The reader deals with a whole output and its end. -/
def readThrough (sj : WithJournal) (reads : List Read) (closing : Closing) : WithJournal :=
  consume (reads.foldl read sj) closing.input

/-- Every line ever queued, with its position. -/
def history (s : LogStream) : List LogLine :=
  LogLine.numbered s.queued.toList

/-- What is queued is what was ever queued, without what has been taken. -/
theorem waiting_eq_drop_history (s : LogStream) : s.waiting = s.history.drop s.taken := by
  refine List.ext_getElem? (fun i => ?_)
  simp only [waiting, history, LogLine.numbered, List.getElem?_map, List.getElem?_drop,
    List.getElem?_zipIdx, Option.map_map, Nat.zero_add]
  rfl

/-- The reader waits for input, or has stopped. -/
def AtRest (s : LogStream) : Prop :=
  s.awaitsInput = true ∨ s.isStopped = true

/-- How many writes there are at most before the reader is at rest. -/
def writesLeft (s : LogStream) : Nat :=
  match s.phase with
  | .reading => if s.inputEnded then 5 else 0
  | .queueing _ => 7
  | .signalling _ => 6
  | .announcing _ => 5
  | .storing _ => 4
  | .raising _ => 3
  | .closing _ => 2
  | .tail => if s.inputEnded then 1 else 0
  | .stopped => 0

/-- A reader that is at rest after `published`, with more input to come, will
    have told the transcript `t` to the journal in the end. -/
structure Tells (start : Journal) (sj : WithJournal) (bytes : List UInt8) (closing : Closing)
    (t : Transcript) : Prop where
  sound : sj.1.Sound
  account : ∃ published, sj.2 = start.publishAll published ∧
    sj.1.account published (sj.1.ahead bytes closing) = t

/-- A step of the reader in one equation, whether it publishes or not. -/
theorem publishing_eq (j : Journal) (step : LogStream × Option Notice) :
    publishing j step = (step.1, j.publishAll step.2.toList) := by
  rcases step with ⟨s, _ | n⟩ <;> rfl

theorem writesLeft_act (s : LogStream) (h : ¬ s.AtRest) : s.act.1.writesLeft < s.writesLeft := by
  unfold AtRest at h
  rcases hp : s.phase with _ | _ | ⟨_ | _⟩ | _ | _ | _ | ⟨_ | _ | _⟩ | _ | _ <;>
    by_cases he : s.inputEnded = true <;>
    simp_all [act, signal, writesLeft, awaitsInput, isStopped]

/-- At rest there is nothing left to write. -/
theorem rest_of_atRest (n : Nat) (sj : WithJournal) (h : sj.1.AtRest) : rest n sj = sj := by
  cases n with
  | zero => rfl
  | succ n =>
      rcases sj with ⟨s, j⟩
      have hor : (s.awaitsInput || s.isStopped) = true := by
        rw [Bool.or_eq_true]
        exact h
      rw [rest, hor, if_pos rfl]

theorem rest_of_busy (n : Nat) (sj : WithJournal) (h : ¬ sj.1.AtRest) :
    rest (n + 1) sj = rest n (publishing sj.2 sj.1.act) := by
  rcases sj with ⟨s, j⟩
  have hor : ¬ (s.awaitsInput || s.isStopped) = true := by
    rw [Bool.or_eq_true]
    exact h
  rw [rest, if_neg hor]

theorem atRest_rest (n : Nat) (sj : WithJournal) (h : sj.1.writesLeft ≤ n) :
    (rest n sj).1.AtRest := by
  induction n generalizing sj with
  | zero =>
      by_contra hb
      have := writesLeft_act sj.1 hb
      omega
  | succ n ih =>
      by_cases hr : sj.1.AtRest
      · rw [rest_of_atRest _ _ hr]
        exact hr
      · have hlt := writesLeft_act sj.1 hr
        rw [rest_of_busy n sj hr]
        refine ih _ ?_
        rw [publishing_eq]
        dsimp only
        omega

theorem writesLeft_le (s : LogStream) : s.writesLeft ≤ restBound := by
  unfold writesLeft restBound
  split <;> (try split) <;> omega

theorem phase_of_stopped {s : LogStream} (h : s.isStopped = true) : s.phase = .stopped := by
  simpa [isStopped] using h

variable {start : Journal} {sj : WithJournal} {bytes : List UInt8} {closing : Closing}
  {t : Transcript}

/-- What a write keeps is kept by all that follow on an input. -/
theorem rest_keeps {P : WithJournal → Prop}
    (hstep : ∀ sj : WithJournal, P sj → P (publishing sj.2 sj.1.act)) (n : Nat) (h : P sj) :
    P (rest n sj) := by
  induction n generalizing sj with
  | zero => exact h
  | succ n ih =>
      by_cases hr : sj.1.AtRest
      · rw [rest_of_atRest _ _ hr]
        exact h
      · rw [rest_of_busy n sj hr]
        exact ih (hstep sj h)

/-- At the beginning all of the transcript is ahead. -/
theorem tells_initial (j : Journal) (bytes : List UInt8) (closing : Closing) :
    Tells j ({}, j) bytes closing (Transcript.ofOutput bytes closing) := by
  refine ⟨sound_initial, [], rfl, ?_⟩
  rw [Transcript.ofOutput_eq]
  rfl

theorem tells_rest (n : Nat) (h : Tells start sj bytes closing t) :
    Tells start (rest n sj) bytes closing t := by
  refine rest_keeps (P := fun sj => Tells start sj bytes closing t) (fun sj h => ?_) n h
  rcases h with ⟨hs, published, hj, ht⟩
  rw [publishing_eq]
  refine ⟨sound_act _ hs, published ++ sj.1.act.2.toList, ?_, ?_⟩
  · rw [Journal.publishAll_append, ← hj]
  · rw [← ht]
    exact account_act sj.1 bytes closing published

/-- Nothing is ahead of a reader that has stopped. -/
theorem tells_of_stopped (hstop : sj.1.isStopped = true) (h : Tells start sj bytes closing t)
    (bytes' : List UInt8) : Tells start sj bytes' closing t := by
  rcases h with ⟨hs, published, hj, ht⟩
  refine ⟨hs, published, hj, ?_⟩
  have hp : sj.1.phase = .stopped := phase_of_stopped hstop
  rw [← ht]
  simp only [account, outlook, hp]

/-- A reader that waits takes the input and writes until it waits again or stops. -/
theorem consume_of_waiting (input : StreamInput) (hw : sj.1.awaitsInput = true) :
    consume sj input = rest restBound (publishing sj.2 (sj.1.take input)) := by
  rw [consume, if_pos hw]

/-- A reader that has stopped takes nothing. -/
theorem consume_of_stopped (input : StreamInput) (hstop : sj.1.isStopped = true) :
    consume sj input = sj := by
  have hp : sj.1.phase = .stopped := phase_of_stopped hstop
  have hw : ¬ sj.1.awaitsInput = true := by simp [awaitsInput, hp]
  rw [consume, if_neg hw]

/-- Every input ends at rest, so the next one finds the reader waiting or
    stopped. -/
theorem atRest_consume (input : StreamInput) (hr : sj.1.AtRest) :
    (consume sj input).1.AtRest := by
  rcases hr with hw | hstop
  · rw [consume_of_waiting input hw]
    exact atRest_rest _ _ (writesLeft_le _)
  · rw [consume_of_stopped input hstop]
    exact .inr hstop

/-- The writes that follow on an input keep what the reader tells. -/
theorem tells_consume_of_take (input : StreamInput) (rest : List UInt8) (hw : sj.1.awaitsInput = true)
    (h : Tells start sj bytes closing t)
    (htake : ∀ published, (sj.1.take input).1.account
        (published ++ (sj.1.take input).2.toList) ((sj.1.take input).1.ahead rest closing)
      = sj.1.account published (sj.1.ahead bytes closing)) :
    Tells start (consume sj input) rest closing t := by
  rcases h with ⟨hs, published, hj, ht⟩
  rw [consume_of_waiting input hw]
  refine tells_rest _ ?_
  rw [publishing_eq]
  refine ⟨sound_take _ input hs hw, published ++ (sj.1.take input).2.toList, ?_, ?_⟩
  · rw [Journal.publishAll_append, ← hj]
  · rw [← ht]
    exact htake published

/-- A byte moves on along the transcript and leaves the transcript as it is. -/
theorem tells_consume_byte (b : UInt8) (hr : sj.1.AtRest)
    (h : Tells start sj (b :: bytes) closing t) :
    Tells start (consume sj (.byte b)) bytes closing t := by
  rcases hr with hw | hstop
  · exact tells_consume_of_take _ bytes hw h
      (fun published => account_take_byte sj.1 b bytes closing published h.sound hw)
  · rw [consume_of_stopped _ hstop]
    exact tells_of_stopped hstop h bytes

theorem tells_consume_interrupted (hr : sj.1.AtRest) (h : Tells start sj bytes closing t) :
    Tells start (consume sj .interrupted) bytes closing t := by
  rcases hr with hw | hstop
  · exact tells_consume_of_take _ bytes hw h (fun published => by simp [take])
  · rw [consume_of_stopped _ hstop]
    exact h

/-- So does the end of the input. -/
theorem tells_consume_closing (hc : closing.IsFinal) (hr : sj.1.AtRest)
    (h : Tells start sj [] closing t) :
    Tells start (consume sj closing.input) [] closing t := by
  rcases hr with hw | hstop
  · cases closing with
    | ended =>
        exact tells_consume_of_take _ [] hw h
          (fun published => account_take_ended sj.1 published h.sound hw)
    | failed reason =>
        exact tells_consume_of_take _ [] hw h
          (fun published => account_take_failed sj.1 reason published _ h.sound hw hc)
  · rw [consume_of_stopped _ hstop]
    exact h

theorem tells_consumeBytes (chunk : List UInt8) (hr : sj.1.AtRest)
    (h : Tells start sj (chunk ++ bytes) closing t) :
    Tells start (consumeBytes sj chunk) bytes closing t ∧ (consumeBytes sj chunk).1.AtRest := by
  induction chunk generalizing sj with
  | nil => exact ⟨h, hr⟩
  | cons b chunk ih => exact ih (atRest_consume _ hr) (tells_consume_byte b hr h)

/-- Reads, however they cut the bytes, keep what the reader tells. -/
theorem tells_reads (reads : List Read) (hr : sj.1.AtRest)
    (h : Tells start sj ((reads.map Read.bytes).flatten ++ bytes) closing t) :
    Tells start (reads.foldl read sj) bytes closing t ∧ (reads.foldl read sj).1.AtRest := by
  induction reads generalizing sj with
  | nil => exact ⟨h, hr⟩
  | cons r reads ih =>
      cases r with
      | chunk chunk =>
          simp only [List.map_cons, Read.bytes, List.flatten_cons, List.append_assoc] at h
          rcases tells_consumeBytes chunk hr h with ⟨h', hr'⟩
          exact ih hr' h'
      | interrupted =>
          simp only [List.map_cons, Read.bytes, List.flatten_cons, List.nil_append] at h
          exact ih (atRest_consume _ hr) (tells_consume_interrupted hr h)

/-- The input has ended, or the reader is on its way to stop for a failure. -/
def isEnding (s : LogStream) : Bool :=
  s.inputEnded || match s.phase with
    | .storing (.readError _) => true
    | .raising (.readError _) => true
    | .closing (.readError _) => true
    | .stopped => true
    | _ => false

/-- A reader that is on its way to the end stays on it. -/
theorem isEnding_act (s : LogStream) (h : s.isEnding = true) : s.act.1.isEnding = true := by
  rcases hp : s.phase with _ | _ | ⟨_ | _⟩ | _ | ⟨_ | _ | _⟩ | ⟨_ | _ | _⟩ | ⟨_ | _ | _⟩ | _ | _ <;>
    by_cases he : s.inputEnded = true <;>
    simp_all [act, signal, isEnding]

theorem isEnding_rest (n : Nat) (h : sj.1.isEnding = true) : (rest n sj).1.isEnding = true := by
  refine rest_keeps (P := fun sj => sj.1.isEnding = true) (fun sj h => ?_) n h
  rw [publishing_eq]
  exact isEnding_act sj.1 h

/-- The end of the input sets the reader on its way to the end. -/
theorem isEnding_take (s : LogStream) (hc : closing.IsFinal) (hw : s.awaitsInput = true) :
    (s.take closing.input).1.isEnding = true := by
  rcases awaitsInput_cases s hw with ⟨-, hp⟩
  cases closing with
  | ended =>
      simp only [Closing.input, take]
      split
      next => simp [isEnding]
      next =>
        unfold finishLine giveUp
        split
        next => split <;> simp [isEnding]
        next => simp [isEnding]
  | failed reason =>
      have hr : reason.isInterrupted = false := hc
      rcases hp with hp | hp <;> simp [Closing.input, take, hr, giveUp, hp, isEnding]

/-- A reader that is ending does not wait for more. -/
theorem isStopped_of_ending {s : LogStream} (hr : s.AtRest) (h : s.isEnding = true) :
    s.isStopped = true := by
  rcases hr with hw | hstop
  · rcases awaitsInput_cases s hw with ⟨hopen, hp | hp⟩ <;> simp [isEnding, hopen, hp] at h
  · exact hstop

/-- A reader has stopped once it has dealt with the end of its input. -/
theorem isStopped_consume_closing (hc : closing.IsFinal) (hr : sj.1.AtRest) :
    (consume sj closing.input).1.isStopped = true := by
  rcases hr with hw | hstop
  · refine isStopped_of_ending (atRest_consume closing.input (.inl hw)) ?_
    rw [consume_of_waiting _ hw]
    refine isEnding_rest _ ?_
    rw [publishing_eq]
    exact isEnding_take sj.1 hc hw
  · rw [consume_of_stopped _ hstop]
    exact hstop

/-- A whole output, in whatever pieces it comes, leaves the reader stopped with
    the transcript told. -/
theorem readThrough_tells (reads : List Read) (closing : Closing) (hc : closing.IsFinal)
    (j : Journal) :
    let t := Transcript.ofOutput (reads.map Read.bytes).flatten closing
    let done := readThrough ({}, j) reads closing
    done.1.isStopped = true ∧ done.1.raised = true ∧ done.1.queued.toList = t.queued ∧
      done.1.streamEnd = some t.streamEnd ∧ done.2 = j.publishAll t.published := by
  have hr : ({} : LogStream).AtRest := .inl rfl
  have hfirst : Tells j ({}, j) ((reads.map Read.bytes).flatten ++ []) closing
      (Transcript.ofOutput (reads.map Read.bytes).flatten closing) := by
    rw [List.append_nil]
    exact tells_initial j _ closing
  rcases tells_reads reads hr hfirst with ⟨hread, hrest⟩
  have hstop := isStopped_consume_closing hc hrest
  rcases tells_consume_closing hc hrest hread with ⟨hs, published, hj, ht⟩
  intro t done
  have hp : done.1.phase = .stopped := phase_of_stopped hstop
  have ht' : done.1.account published (done.1.ahead [] closing) = t := ht
  have hsound : done.1.Sound := hs
  have hstored := hsound.stored
  have hraised := hsound.raised
  simp only [hasEnd, hasFlag, hp] at hstored hraised
  -- With nothing ahead of it the account is what the reader has done.
  simp only [account, outlook, hp, Transcript.behind, List.append_nil] at ht'
  refine ⟨hstop, hraised, by rw [← ht'], ?_, by rw [← ht']; exact hj⟩
  rw [← ht']
  rcases hend : done.1.streamEnd with _ | streamEnd
  · rw [hend] at hstored
    exact absurd hstored Bool.false_ne_true
  · rfl

/-- The reader of an output does what it is specified to do, however the bytes
    arrive. Of the lines before the first that is no text, those up to the first
    with a phrase are queued and the others only published; without a phrase all
    are queued, and the end is told instead. -/
theorem reading_complete (reads : List Read) (closing : Closing) (hc : closing.IsFinal)
    (j : Journal) :
    let raw := Transcript.rawLines (reads.map Read.bytes).flatten closing
    let s := (readThrough ({}, j) reads closing).1
    let j' := (readThrough ({}, j) reads closing).2
    ∃ lines, Transcript.Legible raw lines ∧ s.isStopped = true ∧ s.raised = true ∧
      (∀ k line, lines[k]? = some line →
        (Verdict.failure.InLine line ∨ Verdict.success.InLine line) →
        (∀ earlier ∈ lines.take k,
          ¬ Verdict.failure.InLine earlier ∧ ¬ Verdict.success.InLine earlier) →
        ∃ verdict, (verdict = .failure ↔ Verdict.failure.InLine line) ∧
          s.history = LogLine.numbered (lines.take (k + 1)) ∧
          s.streamEnd = some (.finished verdict) ∧
          j' = j.publishAll ((lines.take (k + 1)).map lineNotice ++
            verdictNotice verdict :: (lines.drop (k + 1)).map lineNotice)) ∧
      ((∀ line ∈ lines, ¬ Verdict.failure.InLine line ∧ ¬ Verdict.success.InLine line) →
        s.history = LogLine.numbered lines ∧
        (lines.length < raw.length → s.streamEnd = some (.readError notTextReason) ∧
          j' = j.publishAll (lines.map lineNotice ++ [endedNotice notTextReason])) ∧
        (lines.length = raw.length →
          (∀ reason, closing = .failed reason → s.streamEnd = some (.readError reason.text) ∧
            j' = j.publishAll (lines.map lineNotice ++ [endedNotice reason.text])) ∧
          (closing = .ended → s.streamEnd = some .unexpectedEof ∧
            j' = j.publishAll (lines.map lineNotice ++ [endedNotice closedReason])))) := by
  intro raw s j'
  rcases readThrough_tells reads closing hc j with ⟨hstop, hraised, hqueued, hend, hj⟩
  rw [Transcript.ofOutput_eq] at hqueued hend hj
  have hhistory : s.history = LogLine.numbered s.queued.toList := rfl
  refine ⟨(Transcript.readable raw).1, Transcript.legible_readable raw, hstop, hraised, ?_, ?_⟩
  · intro k line hk hphrase hearlier
    -- The line has a phrase, so the reader finds a verdict in it; and in none before.
    rcases hv : Verdict.detect line.toList with _ | verdict
    · rcases (Verdict.detect_eq_none line).mp hv with ⟨hf, hs⟩
      exact absurd hphrase (not_or.mpr ⟨hf, hs⟩)
    · have ht := Transcript.ofLines_of_verdict (Transcript.readable raw).1
        (Transcript.toCome (reads.map Read.bytes).flatten closing).2 k line verdict hk hv
        (fun earlier hm => (Verdict.detect_eq_none earlier).mpr (hearlier earlier hm))
      have hlines : (Transcript.toCome (reads.map Read.bytes).flatten closing).1
          = (Transcript.readable raw).1 := rfl
      rw [hlines, ht] at hqueued hend hj
      simp only [Transcript.behind, Transcript.ofVerdict, List.append_nil] at hqueued hend hj
      refine ⟨verdict, ?_, ?_, hend, hj⟩
      · rw [← Verdict.detect_eq_some_failure, hv, Option.some.injEq]
      · rw [hhistory]
        exact congrArg LogLine.numbered hqueued
  · intro hnone
    -- Without a verdict the end is that of the input, unless a line is no text.
    have ht := Transcript.ofLines_of_none (Transcript.readable raw).1
      (Transcript.toCome (reads.map Read.bytes).flatten closing).2
      (fun line hm => (Verdict.detect_eq_none line).mpr (hnone line hm))
    have hlines : (Transcript.toCome (reads.map Read.bytes).flatten closing).1
        = (Transcript.readable raw).1 := rfl
    have hfailure : (Transcript.toCome (reads.map Read.bytes).flatten closing).2
        = Transcript.failure (decide ((Transcript.readable raw).1.length < raw.length)) closing :=
      congrArg (Transcript.failure · closing) (Transcript.readable_spoilt raw)
    rw [hlines, ht, hfailure] at hqueued hend hj
    refine ⟨?_, fun hlt => ?_, fun heq => ?_⟩
    · rw [hhistory]
      refine congrArg LogLine.numbered (hqueued.trans ?_)
      simp only [Transcript.behind]
      rcases Transcript.failure _ closing with _ | reason <;>
        simp only [Transcript.ofEnd, List.append_nil]
    · rw [decide_eq_true hlt] at hend hj
      exact ⟨hend, hj⟩
    · rw [decide_eq_false (by omega)] at hend hj
      refine ⟨fun reason hclosing => ?_, fun hclosing => ?_⟩
      · subst hclosing
        exact ⟨hend, hj⟩
      · subst hclosing
        exact ⟨hend, hj⟩

theorem reading_complete_cut :
    let ascii (s : String) : List UInt8 := s.toList.map fun c => UInt8.ofNat c.toNat
    let j : Journal := { bus := .ofCapacity 8 }
    let reads : List Read := [.chunk (ascii "ok\nCompilation fin"), .interrupted,
      .chunk (ascii "ished successfully!\nleft")]
    let done := readThrough ({}, j) reads .ended
    done.1.history = [⟨0, "ok\n"⟩, ⟨1, "Compilation finished successfully!\n"⟩] ∧
      done.1.streamEnd = some (.finished .success) ∧
      done.2 = j.publishAll [lineNotice "ok\n", lineNotice "Compilation finished successfully!\n",
        verdictNotice .success, lineNotice "left"] := by
  intro ascii j reads
  rcases reading_complete reads .ended trivial j with ⟨lines, hlegible, _, _, hphrase, _⟩
  have hread : (Transcript.readable (Transcript.rawLines (reads.map Read.bytes).flatten .ended)).1
      = ["ok\n", "Compilation finished successfully!\n", "left"] := by
    decide +kernel
  have hlines := hlegible.unique (Transcript.legible_readable _)
  rw [hread] at hlines
  subst hlines
  have hearlier : ∀ earlier ∈ ["ok\n", "Compilation finished successfully!\n", "left"].take 1,
      ¬ Verdict.failure.InLine earlier ∧ ¬ Verdict.success.InLine earlier := by
    intro earlier hm
    rw [List.mem_singleton.mp hm]
    exact (Verdict.detect_eq_none "ok\n").mp (by decide)
  rcases hphrase 1 _ rfl (.inr ⟨[], ['\n'], by decide⟩) hearlier with ⟨verdict, hv, hh, hend, hj⟩
  have hsuccess : verdict = .success := by
    cases verdict with
    | success => rfl
    | failure =>
        have hdetect := (Verdict.detect_eq_some_failure _).mpr (hv.mp rfl)
        exact absurd hdetect (by decide)
  rw [hsuccess] at hend hj
  exact ⟨hh, hend, hj⟩

end LogStream

end SoftPlc
