import SoftPlc.Proofs.Compile.Reading

/-!
# Behind the verdict

A compiler goes on writing after it has announced its verdict, and is killed
if nobody reads what it writes. So the reader keeps its end of the pipe and
forwards what comes to the bus, while the queue is final.

The reader does not keep its promise for every tail. Behind the verdict as
before it a line that is not UTF-8 makes the reader give up, and then the read
end is gone although the input has not ended. This is the only way: at any
moment the reader waits for input exactly if every whole line so far is text.
Nothing else in the bytes matters, and neither does the way in which they were
cut, nor an unfinished line, however it begins.

What the state of a reader says of the bytes it has had is `Stands`, which a
byte keeps. To extend it by one byte, the cutting of an output has to be
opened from the back (`Transcript.cut_concat`), where the transcript opens it
from the front.

## Main definitions

* `Transcript.Announced`: An output of lines up to a verdict, and a tail.
* `LogStream.isOngoing`: The reader is not on its way to stop.
* `LogStream.Stands`: What a reader's state says of the bytes it has had.

## Theorems

* `Transcript.Announced.ofOutput_eq`: What such an output comes to.
* `LogStream.stands_consume_byte`, `LogStream.stands_reads`: A reader waits as
  long as it reads text.
* `LogStream.tail_read_iff`: When the tail is read to its end.
* `LogStream.tail_left_unread`: It is not always.
-/

namespace SoftPlc

namespace Text.Utf8

/-- The bytes of a text are read back as that text. -/
theorem decode?_of_toUTF8 {bytes : List UInt8} {text : String}
    (h : text.toUTF8 = bytes.toByteArray) : decode? bytes = some text.toList := by
  have hvalid : bytes.toByteArray.IsValidUTF8 := by
    rw [← h]
    exact text.isValidUTF8
  rcases hd : decode? bytes with _ | chars
  · exact absurd hvalid (decode?_eq_none_iff.mp hd)
  · have hsame : String.ofList chars = text :=
      String.toByteArray_inj.mp ((decode?_ofList hd).trans h.symm)
    rw [← hsame, String.toList_ofList]

end Text.Utf8

namespace Transcript

/-- The output begins with the lines of `head`, all of them text and the last
    of them the first with a verdict. What stands behind is the tail. -/
inductive Announced (verdict : Verdict) (tail : List UInt8) : List String → List UInt8 → Prop where
  | verdict {text : String} {line : List UInt8} (whole : LogStream.newline ∉ line)
      (encoded : text.toUTF8 = (line ++ [LogStream.newline]).toByteArray)
      (found : Verdict.detect text.toList = some verdict) :
      Announced verdict tail [text] (line ++ LogStream.newline :: tail)
  | line {text : String} {line : List UInt8} {head : List String} {bytes : List UInt8}
      (whole : LogStream.newline ∉ line)
      (encoded : text.toUTF8 = (line ++ [LogStream.newline]).toByteArray)
      (nothing : Verdict.detect text.toList = none) (rest : Announced verdict tail head bytes) :
      Announced verdict tail (text :: head) (line ++ LogStream.newline :: bytes)

variable {verdict : Verdict} {tail bytes : List UInt8} {head : List String}

/-- The lines before the tail are text. -/
theorem Announced.cut_eq (h : Announced verdict tail head bytes) :
    ∃ raw, cut bytes = (raw ++ (cut tail).1, (cut tail).2) ∧
      ∀ line ∈ raw, line.toByteArray.IsValidUTF8 := by
  induction h with
  | @verdict text line whole encoded found =>
      refine ⟨[line ++ [LogStream.newline]], cut_line line tail whole, fun other hm => ?_⟩
      rw [List.mem_singleton.mp hm, ← encoded]
      exact text.isValidUTF8
  | @line text line head bytes whole encoded nothing rest ih =>
      rcases ih with ⟨raw, hcut, hraw⟩
      refine ⟨(line ++ [LogStream.newline]) :: raw, ?_, fun other hm => ?_⟩
      · rw [cut_line line bytes whole, hcut]
        rfl
      · rcases List.mem_cons.mp hm with rfl | hm
        · rw [← encoded]
          exact text.isValidUTF8
        · exact hraw other hm

/-- The lines of `head` are queued, and those of the tail only published, up to
    the first that is no text. -/
theorem Announced.ofOutput_eq (h : Announced verdict tail head bytes) (closing : Closing) :
    ofOutput bytes closing = ⟨head, .finished verdict, head.map LogStream.lineNotice ++
      LogStream.verdictNotice verdict ::
        (readable (rawLines tail closing)).1.map LogStream.lineNotice⟩ := by
  rw [Transcript.ofOutput_eq]
  induction h with
  | @verdict text line whole encoded found =>
      rw [toCome_line line tail closing whole, Text.Utf8.decode?_of_toUTF8 encoded]
      simp only [String.ofList_toList, ofLines, found, behind, ofVerdict, List.append_nil,
        List.map_cons, List.map_nil]
      rfl
  | @line text line head bytes whole encoded nothing rest ih =>
      rw [toCome_line line bytes closing whole, Text.Utf8.decode?_of_toUTF8 encoded]
      simp only [String.ofList_toList, ofLines, nothing, ih, behind, List.cons_append,
        List.nil_append, List.map_cons]

/-- The last byte ends a line or belongs to the unfinished one. -/
theorem cut_concat (bytes : List UInt8) (b : UInt8) :
    cut (bytes ++ [b])
      = if b = LogStream.newline then ((cut bytes).1 ++ [(cut bytes).2 ++ [b]], [])
        else ((cut bytes).1, (cut bytes).2 ++ [b]) := by
  induction bytes with
  | nil =>
      by_cases hb : b = LogStream.newline
      · simp [cut, hb]
      · simp [cut, hb]
  | cons x rest ih =>
      rcases hrest : cut rest with ⟨lines, last⟩
      rw [hrest] at ih
      rw [List.cons_append, cut, ih, cut, hrest]
      by_cases hx : x = LogStream.newline
      · by_cases hb : b = LogStream.newline
        · simp [hx, hb]
        · simp [hx, hb]
      · by_cases hb : b = LogStream.newline
        · cases lines <;> simp [hx, hb]
        · cases lines <;> simp [hx, hb]

/-- At the end of the input there is at most one line more. -/
theorem rawLines_ended (bytes : List UInt8) :
    ∃ last, rawLines bytes .ended = (cut bytes).1 ++ last ∧ last.length ≤ 1 := by
  unfold rawLines
  by_cases hlast : (cut bytes).2.isEmpty = true
  · exact ⟨[], by simp [hlast], by simp⟩
  · exact ⟨[(cut bytes).2], by simp [hlast], by simp⟩

variable {raw whole last : List (List UInt8)} {lines : List String}

/-- Lines that are text are no place to stop. -/
theorem Legible.length_ge (h : Legible (whole ++ last) lines)
    (hwhole : ∀ line ∈ whole, line.toByteArray.IsValidUTF8) : whole.length ≤ lines.length := by
  by_contra hlt
  have hlt : lines.length < whole.length := by omega
  refine h.next whole[lines.length] ?_ (hwhole _ (List.getElem_mem hlt))
  rw [List.getElem?_append_left hlt, List.getElem?_eq_getElem hlt]

/-- A line that is text is read, unless reading stopped before. -/
theorem Legible.mem_of_text (h : Legible raw lines) {text : String} {line : List UInt8} {i : Nat}
    (hi : raw[i]? = some line) (htext : text.toUTF8 = line.toByteArray) (hle : i ≤ lines.length) :
    text ∈ lines := by
  rcases Nat.lt_or_eq_of_le hle with hlt | rfl
  · have hmap : (lines.map String.toUTF8)[i]? = some text.toUTF8 := by
      rw [h.encoded, List.getElem?_map, List.getElem?_take, if_pos hlt, hi, htext]
      rfl
    rcases List.getElem?_map ▸ hmap |> Option.map_eq_some_iff.mp with ⟨other, hother, hsame⟩
    rw [← String.toByteArray_inj.mp hsame]
    exact List.mem_of_getElem? hother
  · refine absurd ?_ (h.next line hi)
    rw [← htext]
    exact text.isValidUTF8

/-- If all whole lines are text, no line that is text is left out. -/
theorem Legible.complete (h : Legible (rawLines bytes .ended) lines)
    (hwhole : ∀ line ∈ (cut bytes).1, line.toByteArray.IsValidUTF8) {text : String}
    {line : List UInt8} (hline : line ∈ rawLines bytes .ended)
    (htext : text.toUTF8 = line.toByteArray) : text ∈ lines := by
  rcases rawLines_ended bytes with ⟨last, hlines, hlast⟩
  rcases List.mem_iff_getElem?.mp hline with ⟨i, hi⟩
  have hlt : i < (rawLines bytes .ended).length := (List.getElem?_eq_some_iff.mp hi).1
  have hge : (cut bytes).1.length ≤ lines.length := (hlines ▸ h).length_ge hwhole
  rw [hlines, List.length_append] at hlt
  exact h.mem_of_text hi htext (by omega)

end Transcript

namespace LogStream

/-- The input has not ended, and the reader is not on its way to stop. -/
def isOngoing (s : LogStream) : Bool :=
  !s.inputEnded && match s.phase with
    | .storing streamEnd | .raising streamEnd | .closing streamEnd =>
      match streamEnd with
      | .finished _ => true
      | _ => false
    | .stopped => false
    | _ => true

/-- What a reader's state says of the bytes it has had. -/
inductive Stands (s : LogStream) (bytes : List UInt8) : Prop where
  | waiting (awaits : s.awaitsInput = true)
      (piece : s.unfinished.reverse = (Transcript.cut bytes).2)
      (text : ∀ line ∈ (Transcript.cut bytes).1, line.toByteArray.IsValidUTF8)
  | stopped (stop : s.isStopped = true)
      (spoilt : ∃ line ∈ (Transcript.cut bytes).1, ¬ line.toByteArray.IsValidUTF8)

variable {s : LogStream} {sj : WithJournal} {bytes : List UInt8}

theorem Stands.atRest (h : Stands s bytes) : s.AtRest := by
  cases h with
  | waiting awaits _ _ => exact .inl awaits
  | stopped stop _ => exact .inr stop

/-- The reader waits exactly if it has read nothing but text. -/
theorem Stands.awaits_iff (h : Stands s bytes) :
    s.awaitsInput = true ↔
      ∀ line ∈ (Transcript.cut bytes).1, line.toByteArray.IsValidUTF8 := by
  cases h with
  | waiting awaits _ text => exact ⟨fun _ => text, fun _ => awaits⟩
  | stopped stop spoilt =>
      rcases spoilt with ⟨line, hline, hnot⟩
      have hp : s.phase = .stopped := phase_of_stopped stop
      exact ⟨fun awaits => by simp [awaitsInput, hp] at awaits,
        fun text => absurd (text line hline) hnot⟩

theorem isOngoing_act (s : LogStream) (h : s.isOngoing = true) : s.act.1.isOngoing = true := by
  rcases hp : s.phase with _ | _ | ⟨_ | _⟩ | _ | ⟨_ | _ | _⟩ | ⟨_ | _ | _⟩ | ⟨_ | _ | _⟩ | _ | _ <;>
    by_cases he : s.inputEnded = true <;>
    simp_all [act, signal, isOngoing]

theorem ongoing_rest (n : Nat) (j : Journal) (h : s.isOngoing = true) :
    (rest n (s, j)).1.isOngoing = true ∧ (rest n (s, j)).1.unfinished = s.unfinished := by
  refine rest_keeps (P := fun sj => sj.1.isOngoing = true ∧ sj.1.unfinished = s.unfinished)
    (fun sj h => ?_) n ⟨h, rfl⟩
  rw [publishing_eq]
  exact ⟨isOngoing_act sj.1 h.1, (act_input sj.1).1.trans h.2⟩

theorem awaits_of_ongoing (hr : s.AtRest) (h : s.isOngoing = true) : s.awaitsInput = true := by
  rcases hr with hw | hstop
  · exact hw
  · have hp : s.phase = .stopped := phase_of_stopped hstop
    simp [isOngoing, hp] at h

theorem isEnding_finishLine {line : List UInt8} (hp : s.phase = .reading ∨ s.phase = .tail)
    (hd : Text.Utf8.decode? line = none) : (s.finishLine line).1.isEnding = true := by
  rcases hp with hp | hp <;> simp [finishLine, hd, giveUp, hp, isEnding]

theorem ongoing_finishLine {line : List UInt8} {text : List Char} (hopen : s.inputEnded = false)
    (hp : s.phase = .reading ∨ s.phase = .tail) (hd : Text.Utf8.decode? line = some text) :
    (s.finishLine line).1.isOngoing = true ∧ (s.finishLine line).1.unfinished = [] := by
  rcases hp with hp | hp <;> simp [finishLine, hd, hp, hopen, isOngoing]

/-- Input that leads to no writes. -/
theorem consume_of_quiet {input : StreamInput} {after : LogStream} (hw : sj.1.awaitsInput = true)
    (htake : sj.1.take input = (after, none)) (hafter : after.awaitsInput = true) :
    consume sj input = (after, sj.2) := by
  rw [consume_of_waiting _ hw, htake]
  exact rest_of_atRest _ (after, sj.2) (.inl hafter)

/-- A whole line that is text leaves the reader waiting, and any other stops it. -/
theorem stands_consume_newline (hw : sj.1.awaitsInput = true)
    (piece : sj.1.unfinished.reverse = (Transcript.cut bytes).2)
    (text : ∀ line ∈ (Transcript.cut bytes).1, line.toByteArray.IsValidUTF8) :
    Stands (consume sj (.byte newline)).1 (bytes ++ [newline]) := by
  have hrest : (consume sj (.byte newline)).1.AtRest := atRest_consume _ (.inl hw)
  have hcut := Transcript.cut_concat bytes newline
  rw [if_pos rfl, ← piece, ← List.reverse_cons] at hcut
  have htake : sj.1.take (.byte newline)
      = sj.1.finishLine (newline :: sj.1.unfinished).reverse := by
    simp only [take, if_true]
  rcases awaitsInput_cases sj.1 hw with ⟨hopen, hp⟩
  rw [consume_of_waiting _ hw, htake, publishing_eq] at hrest ⊢
  rcases hd : Text.Utf8.decode? (newline :: sj.1.unfinished).reverse with _ | chars
  · refine .stopped (isStopped_of_ending hrest (isEnding_rest _ (isEnding_finishLine hp hd))) ?_
    refine ⟨_, ?_, Text.Utf8.decode?_eq_none_iff.mp hd⟩
    rw [hcut]
    exact List.mem_append_right _ (List.mem_singleton.mpr rfl)
  · rcases ongoing_finishLine hopen hp hd with ⟨hongoing, hnothing⟩
    rcases ongoing_rest restBound _ hongoing with ⟨hongoing, hkept⟩
    refine .waiting (awaits_of_ongoing hrest hongoing) ?_ fun line hm => ?_
    · rw [hkept, hcut, hnothing]
      rfl
    · rw [hcut] at hm
      rcases List.mem_append.mp hm with hm | hm
      · exact text line hm
      · rw [List.mem_singleton.mp hm, ← Text.Utf8.decode?_ofList hd]
        exact (String.ofList chars).isValidUTF8

/-- One byte more, and the reader still stands as the bytes say. -/
theorem stands_consume_byte (b : UInt8) (h : Stands sj.1 bytes) :
    Stands (consume sj (.byte b)).1 (bytes ++ [b]) := by
  cases h with
  | waiting awaits piece text =>
      by_cases hb : b = newline
      · subst hb
        exact stands_consume_newline awaits piece text
      · have hcut := Transcript.cut_concat bytes b
        rw [if_neg hb] at hcut
        have htake : sj.1.take (.byte b)
            = ({ sj.1 with unfinished := b :: sj.1.unfinished }, none) := by
          simp only [take, if_neg hb]
        rw [consume_of_quiet awaits htake awaits]
        refine .waiting awaits ?_ (by rw [hcut]; exact text)
        rw [hcut]
        exact List.reverse_cons.trans (congrArg (· ++ [b]) piece)
  | stopped stop spoilt =>
      rcases spoilt with ⟨line, hline, hnot⟩
      rw [consume_of_stopped _ stop]
      refine .stopped stop ⟨line, ?_, hnot⟩
      rw [Transcript.cut_concat]
      split
      next => exact List.mem_append_left _ hline
      next => exact hline

theorem stands_consumeBytes (chunk : List UInt8) (h : Stands sj.1 bytes) :
    Stands (consumeBytes sj chunk).1 (bytes ++ chunk) := by
  induction chunk generalizing sj bytes with
  | nil => simpa [consumeBytes] using h
  | cons b chunk ih => simpa [consumeBytes] using ih (stands_consume_byte b h)

theorem stands_consume_interrupted (h : Stands sj.1 bytes) :
    Stands (consume sj .interrupted).1 bytes := by
  rcases h.atRest with hw | hstop
  · rw [consume_of_quiet hw rfl hw]
    exact h
  · rw [consume_of_stopped _ hstop]
    exact h

/-- Reads, however they cut the bytes, leave the reader standing as the bytes say. -/
theorem stands_reads (reads : List Read) (h : Stands sj.1 bytes) :
    Stands (reads.foldl read sj).1 (bytes ++ (reads.map Read.bytes).flatten) := by
  induction reads generalizing sj bytes with
  | nil => simpa using h
  | cons r reads ih =>
      cases r with
      | chunk chunk => simpa [Read.bytes, read] using ih (stands_consumeBytes chunk h)
      | interrupted => simpa [Read.bytes, read] using ih (stands_consume_interrupted h)

theorem stands_initial : Stands {} [] :=
  .waiting rfl rfl fun _ hm => absurd hm List.not_mem_nil

/-- A reader at rest, whose input would fail now, has already told what it has to
    tell of an output with a verdict. -/
theorem told_of_tells {start : Journal} {reason : Failure} {t : Transcript} {verdict : Verdict}
    (hr : sj.1.AtRest) (h : Tells start sj [] (.failed reason) t)
    (hend : t.streamEnd = .finished verdict) :
    sj.1.queued.toList = t.queued ∧ sj.1.streamEnd = some t.streamEnd ∧
      sj.2 = start.publishAll t.published := by
  rcases h with ⟨hs, published, hj, ht⟩
  have hstored := hs.stored
  -- With nothing more to queue or to publish the account is what has been done.
  have hfinal : (⟨sj.1.queued.toList, sj.1.streamEnd.getD default, published⟩ : Transcript) = t →
      sj.1.hasEnd = true → sj.1.queued.toList = t.queued ∧
        sj.1.streamEnd = some t.streamEnd ∧ sj.2 = start.publishAll t.published := by
    rintro rfl hhas
    rw [hhas] at hstored
    rcases Option.isSome_iff_exists.mp hstored with ⟨streamEnd, hsome⟩
    exact ⟨rfl, by rw [hsome]; rfl, hj⟩
  rcases hr with hw | hstop
  · rcases awaitsInput_cases sj.1 hw with ⟨hopen, hp⟩
    have hu : newline ∉ sj.1.unfinished.reverse := by
      rw [List.mem_reverse]
      exact hs.unfinished
    rw [ahead_of_open _ _ _ hopen, List.append_nil, Transcript.toCome_failed _ _ hu] at ht
    rcases hp with hp | hp
    · -- Before a verdict the failure would end the stream.
      rw [← ht] at hend
      simp [account, outlook, hp, Transcript.ofLines, Transcript.ofEnd, Transcript.behind] at hend
    · refine hfinal ?_ (by simp [hasEnd, hp])
      rw [← ht]
      simp [account, outlook, hp, Transcript.behind]
  · have hp : sj.1.phase = .stopped := phase_of_stopped hstop
    refine hfinal ?_ (by simp [hasEnd, hp])
    rw [← ht]
    simp [account, outlook, hp, Transcript.behind]

/-- After a verdict the queue is final, and what comes behind it reaches the bus
    only. The reader waits for all of it, and leaves out no line that is text,
    exactly as long as every whole line is text; otherwise it has stopped, though
    the input has not ended. -/
theorem tail_read_iff (reads : List Read) (j : Journal) (verdict : Verdict) (head : List String)
    (tail : List UInt8)
    (h : Transcript.Announced verdict tail head (reads.map Read.bytes).flatten) :
    let now := reads.foldl read ({}, j)
    let done := consume now .ended
    let whole := (Transcript.cut tail).1
    let raw := Transcript.rawLines tail .ended
    ∃ soFar lines, Transcript.Legible whole soFar ∧ Transcript.Legible raw lines ∧
      (now.1.history = LogLine.numbered head ∧ done.1.history = LogLine.numbered head) ∧
      (now.1.streamEnd = some (.finished verdict) ∧ done.1.streamEnd = some (.finished verdict)) ∧
      now.2 = j.publishAll (head.map lineNotice ++
        verdictNotice verdict :: soFar.map lineNotice) ∧
      done.2 = j.publishAll (head.map lineNotice ++
        verdictNotice verdict :: lines.map lineNotice) ∧
      (now.1.awaitsInput = false → now.1.isStopped = true) ∧ done.1.isStopped = true ∧
      ((now.1.awaitsInput = true ∧ ∀ text : String, ∀ line ∈ raw,
          text.toUTF8 = line.toByteArray → text ∈ lines) ↔
        ∀ line ∈ whole, line.toByteArray.IsValidUTF8) := by
  intro now done whole raw
  have hstands : Stands now.1 (reads.map Read.bytes).flatten :=
    @stands_reads ({}, j) [] reads stands_initial
  -- What is told so far is what would be told if the input failed now.
  let lost : Failure := .described ""
  have hfirst : Tells j ({}, j) ((reads.map Read.bytes).flatten ++ []) (.failed lost)
      (Transcript.ofOutput (reads.map Read.bytes).flatten (.failed lost)) := by
    rw [List.append_nil]
    exact tells_initial j _ (.failed lost)
  rcases tells_reads reads (.inl rfl) hfirst with ⟨hread, hrest⟩
  rw [h.ofOutput_eq] at hread
  rcases told_of_tells hrest hread rfl with ⟨hqueued, hend, hj⟩
  rcases readThrough_tells reads .ended trivial j with ⟨hstop, -, hqueued', hend', hj'⟩
  rw [h.ofOutput_eq] at hqueued' hend' hj'
  -- What the bus is to get are the lines up to the first that is no text.
  have hlegible : Transcript.Legible raw (Transcript.readable raw).1 :=
    Transcript.legible_readable raw
  refine ⟨(Transcript.readable whole).1, (Transcript.readable raw).1,
    Transcript.legible_readable whole, hlegible,
    ⟨congrArg LogLine.numbered hqueued, congrArg LogLine.numbered hqueued'⟩, ⟨hend, hend'⟩,
    hj, hj', fun hnot => ?_, hstop, ⟨fun hkept => ?_, fun hwhole => ⟨?_, ?_⟩⟩⟩
  · rcases hrest with hw | hstop
    · exact absurd (hnot.symm.trans hw) Bool.false_ne_true
    · exact hstop
  · rcases h.cut_eq with ⟨before, hcut, -⟩
    have hall := hstands.awaits_iff.mp hkept.1
    rw [hcut] at hall
    exact fun line hm => hall line (List.mem_append_right _ hm)
  · rcases h.cut_eq with ⟨before, hcut, hbefore⟩
    refine hstands.awaits_iff.mpr fun line hm => ?_
    rw [hcut] at hm
    rcases List.mem_append.mp hm with hm | hm
    · exact hbefore line hm
    · exact hwhole line hm
  · exact fun text line hline htext => hlegible.complete hwhole hline htext

theorem tail_read_iff_late :
    let ascii (s : String) : List UInt8 := s.toList.map fun c => UInt8.ofNat c.toNat
    let j : Journal := { bus := .ofCapacity 8 }
    let reads : List Read := [.chunk (ascii "Compilation finished succ"), .interrupted,
      .chunk (ascii "essfully!\nclean"), .chunk (ascii "up\nbye")]
    let now := reads.foldl read ({}, j)
    Transcript.Announced .success (ascii "cleanup\nbye") ["Compilation finished successfully!\n"]
        (reads.map Read.bytes).flatten ∧
      now.1.awaitsInput = true ∧ (consume now .ended).2 =
        j.publishAll [lineNotice "Compilation finished successfully!\n", verdictNotice .success,
          lineNotice "cleanup\n", lineNotice "bye"] := by
  intro ascii j reads now
  have hannounced : Transcript.Announced .success (ascii "cleanup\nbye")
      ["Compilation finished successfully!\n"] (reads.map Read.bytes).flatten :=
    @Transcript.Announced.verdict _ _ _ (ascii "Compilation finished successfully!") (by decide)
      (by decide) (by decide)
  rcases tail_read_iff reads j .success _ _ hannounced with
    ⟨_, lines, _, hlegible, _, _, _, hj, _, _, hiff⟩
  have hread : (Transcript.readable (Transcript.rawLines (ascii "cleanup\nbye") .ended)).1
      = ["cleanup\n", "bye"] := by
    decide +kernel
  have hlines := hlegible.unique (Transcript.legible_readable _)
  rw [hread] at hlines
  rw [hlines] at hj
  refine ⟨hannounced, (hiff.mpr fun line hm => ?_).1, hj⟩
  have hwhole : (Transcript.cut (ascii "cleanup\nbye")).1 = [ascii "cleanup\n"] := by decide
  rw [hwhole, List.mem_singleton] at hm
  have htext : "cleanup\n".toUTF8 = line.toByteArray := by
    rw [hm]
    decide
  rw [← htext]
  exact "cleanup\n".isValidUTF8

/-- A line of the tail that is no text stops the reader: the read end is gone
    though the input has not ended, and nothing of what the compiler writes
    after that is read or forwarded. -/
theorem tail_left_unread :
    let ascii (s : String) : List UInt8 := s.toList.map fun c => UInt8.ofNat c.toNat
    let j : Journal := { bus := .ofCapacity 8 }
    let reads : List Read :=
      [.chunk (ascii "Compilation finished successfully!\n"), .chunk [0xFF, newline]]
    let now := reads.foldl read ({}, j)
    Transcript.Announced .success [0xFF, newline] ["Compilation finished successfully!\n"]
        (reads.map Read.bytes).flatten ∧
      now.1.awaitsInput = false ∧ now.1.isStopped = true ∧
      read now (.chunk (ascii "cleanup\n")) = now ∧
      now.2 = j.publishAll
        [lineNotice "Compilation finished successfully!\n", verdictNotice .success] := by
  intro ascii j reads now
  refine ⟨@Transcript.Announced.verdict _ _ _ (ascii "Compilation finished successfully!")
    (by decide) (by decide) (by decide), by decide +kernel, by decide +kernel, ?_, ?_⟩
  · decide +kernel
  · decide +kernel

end LogStream

end SoftPlc
