import SoftPlc.Compile.Transcript
import SoftPlc.Proofs.Text.Utf8
import Mathlib.Data.List.Infix

/-!
# Reading a transcript from the front

A transcript is said of a whole output at once. To compare it with a reader,
which only ever knows the beginning, it is opened from the front here: the
first line of an output depends on the bytes up to the first newline, and the
transcript of some lines is what the first one comes to, followed by the
transcript of the others, or by a tail if the first one holds a verdict.

What stands in the way of a plain recursion is the end of the input, which
decides about the unfinished line and about the reason for which there are no
more lines. `toCome` keeps both together, so that an input is the lines it
comes to and why there are no others.

Which lines hold a verdict is said again without the search for the phrases: a
line announces a failure if it contains the one phrase, and otherwise a
success if it contains the other. Which lines are read is said again without
the decoder, by what their text is encoded to.

## Main definitions

* `Verdict.InLine`: A line contains the phrase of a verdict.
* `Transcript.toCome`: The lines an input comes to, and why there are no more.
* `Transcript.ofLines`: The transcript of such lines.
* `Transcript.Legible`: The lines before the first that is no text.

## Theorems

* `Verdict.detect_eq_some_failure`, `Verdict.detect_eq_none`: Which lines hold
  a verdict.
* `Transcript.ofLines_of_verdict`, `Transcript.ofLines_of_none`: The transcript
  of lines with a first verdict, and of lines without any.
* `Transcript.Legible.unique`, `Transcript.legible_readable`: Lines are read up
  to the first that is no text.
* `Transcript.ofOutput_eq`: An output is the lines it comes to.
* `Transcript.toCome_line`: The first line of an input.
* `Transcript.toCome_failed`, `Transcript.toCome_ended`: The last one.
-/

namespace SoftPlc

namespace Verdict

/-- The phrase that announces a verdict. -/
def phrase : Verdict → String
  | success => successPhrase
  | failure => failurePhrase

/-- The line contains the phrase of a verdict. -/
def InLine (v : Verdict) (line : String) : Prop :=
  v.phrase.toList <:+: line.toList

theorem occurs_iff (phrase line : List Char) : occurs phrase line = true ↔ phrase <:+: line := by
  induction line with
  | nil => simp [occurs]
  | cons c rest ih =>
      rw [occurs, Bool.or_eq_true, List.isPrefixOf_iff_prefix, ih, List.infix_cons_iff]

/-- A line announces a failure exactly if it contains the phrase for it. -/
theorem detect_eq_some_failure (line : String) :
    detect line.toList = some failure ↔ failure.InLine line := by
  unfold detect InLine phrase
  rw [← occurs_iff]
  by_cases hf : occurs failurePhrase.toList line.toList = true
  · simp only [hf, if_true]
  · simp only [hf, if_false, iff_false, Bool.false_eq_true]
    split <;> simp only [Option.some.injEq, reduceCtorEq, not_false_eq_true]

/-- A line announces nothing exactly if it contains neither phrase. -/
theorem detect_eq_none (line : String) :
    detect line.toList = none ↔ ¬ failure.InLine line ∧ ¬ success.InLine line := by
  unfold detect InLine phrase
  rw [← occurs_iff, ← occurs_iff]
  by_cases hf : occurs failurePhrase.toList line.toList = true
  · simp only [hf, if_true, reduceCtorEq, not_true_eq_false, false_and]
  · by_cases hs : occurs successPhrase.toList line.toList = true
    · simp only [hf, hs, if_true, reduceCtorEq, not_true_eq_false, and_false, Bool.false_eq_true,
        if_false]
    · simp only [hf, hs, not_false_eq_true, and_self, Bool.false_eq_true, if_false]

end Verdict

namespace Transcript

/-- The lines that an input comes to, and the failure that ends them, if one
    does. -/
def toCome (bytes : List UInt8) (closing : Closing) : List String × Option String :=
  ((readable (rawLines bytes closing)).1,
    failure (readable (rawLines bytes closing)).2 closing)

/-- What is left to do after the last line. -/
def ofEnd : Option String → Transcript
  | some reason => ⟨[], .readError reason, [LogStream.endedNotice reason]⟩
  | none => ⟨[], .unexpectedEof, [LogStream.endedNotice LogStream.closedReason]⟩

/-- What is left to do after a line with a verdict, given the lines behind it. -/
def ofVerdict (verdict : Verdict) (tail : List String) : Transcript :=
  ⟨[], .finished verdict, LogStream.verdictNotice verdict :: tail.map LogStream.lineNotice⟩

/-- A transcript with something queued and published before it. -/
def behind (queued : List String) (published : List Notice) (t : Transcript) : Transcript :=
  ⟨queued ++ t.queued, t.streamEnd, published ++ t.published⟩

/-- What lines come to that are read before any verdict. -/
def ofLines : List String → Option String → Transcript
  | [], failure => ofEnd failure
  | line :: rest, failure =>
    behind [line] [LogStream.lineNotice line] <|
      match Verdict.detect line.toList with
      | some verdict => ofVerdict verdict rest
      | none => ofLines rest failure

@[simp] theorem behind_behind (q q' : List String) (p p' : List Notice) (t : Transcript) :
    behind q p (behind q' p' t) = behind (q ++ q') (p ++ p') t := by
  simp only [behind, List.append_assoc]

/-- A first line with a verdict is the last to be queued. -/
theorem ofLines_of_verdict (lines : List String) (failure : Option String) (k : Nat)
    (line : String) (verdict : Verdict) (hk : lines[k]? = some line)
    (hv : Verdict.detect line.toList = some verdict)
    (hearlier : ∀ earlier ∈ lines.take k, Verdict.detect earlier.toList = none) :
    ofLines lines failure
      = (ofVerdict verdict (lines.drop (k + 1))).behind (lines.take (k + 1))
          ((lines.take (k + 1)).map LogStream.lineNotice) := by
  induction k generalizing lines with
  | zero =>
      cases lines with
      | nil => exact absurd hk (by simp only [List.getElem?_nil, reduceCtorEq, not_false_eq_true])
      | cons first rest =>
          have hfirst : first = line := by simpa using hk
          subst hfirst
          simp only [ofLines, hv, List.take_succ_cons, List.take_zero, List.drop_succ_cons,
            List.drop_zero, List.map_cons, List.map_nil]
  | succ k ih =>
      cases lines with
      | nil => exact absurd hk (by simp only [List.getElem?_nil, reduceCtorEq, not_false_eq_true])
      | cons first rest =>
          have hfirst : Verdict.detect first.toList = none :=
            hearlier first (by rw [List.take_succ_cons]; exact List.mem_cons_self)
          have hrest := ih rest (by simpa using hk) (fun earlier hm =>
            hearlier earlier (by rw [List.take_succ_cons]; exact List.mem_cons_of_mem _ hm))
          rw [ofLines, hfirst]
          dsimp only
          rw [hrest, behind_behind]
          rfl

/-- Without any verdict all lines are queued. -/
theorem ofLines_of_none (lines : List String) (failure : Option String)
    (h : ∀ line ∈ lines, Verdict.detect line.toList = none) :
    ofLines lines failure
      = (ofEnd failure).behind lines (lines.map LogStream.lineNotice) := by
  induction lines with
  | nil => rfl
  | cons line rest ih =>
      rw [ofLines, h line List.mem_cons_self]
      dsimp only
      rw [ih (fun l hl => h l (List.mem_cons_of_mem _ hl)), behind_behind]
      rfl

/-- The transcript of an output is that of the lines it comes to. -/
theorem ofOutput_eq (bytes : List UInt8) (closing : Closing) :
    ofOutput bytes closing = ofLines (toCome bytes closing).1 (toCome bytes closing).2 := by
  unfold ofOutput toCome
  rcases readable (rawLines bytes closing) with ⟨lines, spoilt⟩
  dsimp only
  generalize failure spoilt closing = reason
  induction lines with
  | nil => cases reason <;> rfl
  | cons line rest ih =>
      simp only [splitAtVerdict, ofLines]
      rcases hv : Verdict.detect line.toList with _ | verdict
      · simp only
        rw [← ih]
        rcases splitAtVerdict rest with ⟨queued, _ | ⟨verdict, tail⟩⟩
        · cases reason <;> rfl
        · rfl
      · rfl

/-- The lines are those before the first that is no text, all of them if there
    is no such line. -/
structure Legible (raw : List (List UInt8)) (lines : List String) : Prop where
  encoded : lines.map String.toUTF8 = (raw.take lines.length).map List.toByteArray
  next : ∀ line, raw[lines.length]? = some line → ¬ line.toByteArray.IsValidUTF8

/-- A line that one of two legible beginnings reads is no place where the other
    may stop. -/
theorem Legible.length_le {raw : List (List UInt8)} {a b : List String} (ha : Legible raw a)
    (hb : Legible raw b) : b.length ≤ a.length := by
  by_contra hlt
  have hlt : a.length < b.length := by omega
  have hmap : (b.map String.toUTF8)[a.length]? = (b.get ⟨a.length, hlt⟩).toUTF8 := by
    rw [List.getElem?_map, List.getElem?_eq_getElem hlt, Option.map_some]
    rfl
  rw [hb.encoded, List.getElem?_map, List.getElem?_take, if_pos hlt] at hmap
  rcases Option.map_eq_some_iff.mp hmap with ⟨line, hline, hbytes⟩
  refine ha.next line hline ?_
  rw [hbytes]
  exact (b.get ⟨a.length, hlt⟩).isValidUTF8

/-- There is only one way to read such lines. -/
theorem Legible.unique {raw : List (List UInt8)} {a b : List String} (ha : Legible raw a)
    (hb : Legible raw b) : a = b := by
  have hlen : a.length = b.length := Nat.le_antisymm (hb.length_le ha) (ha.length_le hb)
  have hmap : a.map String.toUTF8 = b.map String.toUTF8 := by
    rw [ha.encoded, hb.encoded, hlen]
  exact List.map_injective_iff.mpr (fun _ _ h => String.toByteArray_inj.mp h) hmap

/-- What is read of a list of raw lines is a legible beginning of it. -/
theorem legible_readable (raw : List (List UInt8)) : Legible raw (readable raw).1 := by
  induction raw with
  | nil => exact ⟨rfl, fun line h => absurd h (by simp [readable])⟩
  | cons line rest ih =>
      rcases hd : Text.Utf8.decode? line with _ | chars
      · have hread : readable (line :: rest) = ([], true) := by
          rw [readable, hd]
        rw [hread]
        refine ⟨rfl, fun next h => ?_⟩
        rw [← Option.some.inj h]
        exact Text.Utf8.decode?_eq_none_iff.mp hd
      · have hread : (readable (line :: rest)).1 = String.ofList chars :: (readable rest).1 := by
          rw [readable, hd]
        rw [hread]
        refine ⟨?_, fun next h => ih.next next h⟩
        rw [List.length_cons, List.take_succ_cons, List.map_cons, List.map_cons, ih.encoded,
          Text.Utf8.decode?_ofList hd]

/-- A list of raw lines is spoilt exactly if not all of them are read. -/
theorem readable_spoilt (raw : List (List UInt8)) :
    (readable raw).2 = decide ((readable raw).1.length < raw.length) := by
  induction raw with
  | nil => rfl
  | cons line rest ih =>
      rcases hd : Text.Utf8.decode? line with _ | chars
      · simp [readable, hd]
      · simp [readable, hd, ih]

/-- The bytes up to a newline are the first line. -/
theorem cut_line (u bytes : List UInt8) (hu : LogStream.newline ∉ u) :
    cut (u ++ LogStream.newline :: bytes)
      = ((u ++ [LogStream.newline]) :: (cut bytes).1, (cut bytes).2) := by
  induction u with
  | nil => simp [cut]
  | cons b u ih =>
      have hb : b ≠ LogStream.newline := fun h => hu (by simp [h])
      have hu' : LogStream.newline ∉ u := fun h => hu (by simp [h])
      simp only [List.cons_append, cut, ih hu', if_neg hb]

/-- Bytes without a newline are no whole line. -/
theorem cut_open (u : List UInt8) (hu : LogStream.newline ∉ u) : cut u = ([], u) := by
  induction u with
  | nil => rfl
  | cons b u ih =>
      have hb : b ≠ LogStream.newline := fun h => hu (by simp [h])
      have hu' : LogStream.newline ∉ u := fun h => hu (by simp [h])
      simp only [cut, ih hu', if_neg hb]

theorem rawLines_line (u bytes : List UInt8) (closing : Closing) (hu : LogStream.newline ∉ u) :
    rawLines (u ++ LogStream.newline :: bytes) closing
      = (u ++ [LogStream.newline]) :: rawLines bytes closing := by
  unfold rawLines
  rw [cut_line u bytes hu]
  cases closing with
  | ended =>
      dsimp only
      split <;> simp
  | failed reason => rfl

/-- The next line is the first to come, if it is text. -/
theorem toCome_line (u bytes : List UInt8) (closing : Closing) (hu : LogStream.newline ∉ u) :
    toCome (u ++ LogStream.newline :: bytes) closing
      = match Text.Utf8.decode? (u ++ [LogStream.newline]) with
        | some text =>
          (String.ofList text :: (toCome bytes closing).1, (toCome bytes closing).2)
        | none => ([], some LogStream.notTextReason) := by
  unfold toCome
  rw [rawLines_line u bytes closing hu, readable]
  rcases Text.Utf8.decode? (u ++ [LogStream.newline]) with _ | text
  · simp only [failure, if_true]
  · rfl

/-- An input that fails loses the unfinished line. -/
theorem toCome_failed (u : List UInt8) (reason : Failure) (hu : LogStream.newline ∉ u) :
    toCome u (.failed reason) = ([], some reason.text) := by
  simp [toCome, rawLines, cut_open u hu, readable, failure]

/-- An input that ends makes a line of the unfinished one, if there is any. -/
theorem toCome_ended (u : List UInt8) (hu : LogStream.newline ∉ u) :
    toCome u .ended
      = if u = [] then ([], none)
        else match Text.Utf8.decode? u with
          | some text => ([String.ofList text], none)
          | none => ([], some LogStream.notTextReason) := by
  by_cases h : u = []
  · subst h
    simp [toCome, rawLines, cut, readable, failure]
  · rw [if_neg h]
    simp only [toCome, rawLines, cut_open u hu, List.isEmpty_iff, if_neg h, List.nil_append,
      readable]
    rcases Text.Utf8.decode? u with _ | text
    · simp only [failure, if_true]
    · simp [failure]

end Transcript

end SoftPlc
