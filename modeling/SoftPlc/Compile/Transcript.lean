import SoftPlc.Compile.LogStream

/-!
# Transcripts

What a compiler's whole output comes to, said of all its bytes at once and
without a reader: the lines that are queued, how the stream ends, and what is
published. `LogStream` gets there one byte and one write at a time; here
nothing is left of the order in which bytes arrive, so a transcript cannot
depend on it.

The output is cut after each newline. A piece behind the last newline counts
as a line when the input has ended, and is lost when it failed. A line that is
no text ends the reading, whatever comes behind it. Of the lines before that,
those up to the first with a verdict are queued; the others are the tail.

## Main definitions

* `Closing`: How the input came to its end.
* `Transcript.cut`: The lines in a string of bytes.
* `Transcript.splitAtVerdict`: The lines up to the first with a verdict.
* `Transcript.ofOutput`: What a whole output comes to.

## Theorems

* `Transcript.flatten_cut`: Cutting loses nothing.
* `Transcript.append_splitAtVerdict`: Neither does splitting.
-/

namespace SoftPlc

/-- How the input of a reader came to its end. -/
inductive Closing where
  | ended
  | failed (reason : Failure)
  deriving DecidableEq, Repr, Inhabited

/-- What a whole output comes to. -/
structure Transcript where
  /-- The lines that are queued, in order. -/
  queued : List String
  streamEnd : StreamEnd
  /-- What is published, in order. -/
  published : List Notice
  deriving DecidableEq, Repr, Inhabited

namespace Transcript

/-- The bytes cut after each newline, and the piece behind the last one. -/
def cut : List UInt8 → List (List UInt8) × List UInt8
  | [] => ([], [])
  | b :: rest =>
    let (lines, last) := cut rest
    if b = LogStream.newline then ([b] :: lines, last)
    else match lines with
      | [] => ([], b :: last)
      | line :: lines => ((b :: line) :: lines, last)

/-- The lines of an output, as bytes. -/
def rawLines (bytes : List UInt8) (closing : Closing) : List (List UInt8) :=
  let (lines, last) := cut bytes
  match closing with
  | .ended => if last.isEmpty then lines else lines ++ [last]
  | .failed _ => lines

/-- The lines before the first that is no text, and whether there is such a
    line. -/
def readable : List (List UInt8) → List String × Bool
  | [] => ([], false)
  | line :: rest =>
    match Text.Utf8.decode? line with
    | some text =>
      let (texts, spoilt) := readable rest
      (String.ofList text :: texts, spoilt)
    | none => ([], true)

/-- The lines up to the first with a verdict, and the verdict with the lines
    behind it, if there is one. -/
def splitAtVerdict : List String → List String × Option (Verdict × List String)
  | [] => ([], none)
  | line :: rest =>
    match Verdict.detect line.toList with
    | some verdict => ([line], some (verdict, rest))
    | none =>
      let (lines, found) := splitAtVerdict rest
      (line :: lines, found)

/-- The reason for which a stream without a verdict failed, if it did. -/
def failure (spoilt : Bool) (closing : Closing) : Option String :=
  if spoilt then some LogStream.notTextReason
  else match closing with
    | .ended => none
    | .failed reason => some reason.text

/-- What a whole output comes to. -/
def ofOutput (bytes : List UInt8) (closing : Closing) : Transcript :=
  let (lines, spoilt) := readable (rawLines bytes closing)
  match splitAtVerdict lines with
  | (queued, some (verdict, tail)) =>
    ⟨queued, .finished verdict,
      queued.map LogStream.lineNotice ++
        LogStream.verdictNotice verdict :: tail.map LogStream.lineNotice⟩
  | (queued, none) =>
    match failure spoilt closing with
    | some reason =>
      ⟨queued, .readError reason,
        queued.map LogStream.lineNotice ++ [LogStream.endedNotice reason]⟩
    | none =>
      ⟨queued, .unexpectedEof,
        queued.map LogStream.lineNotice ++ [LogStream.endedNotice LogStream.closedReason]⟩

/-- Cutting loses nothing. -/
theorem flatten_cut (bytes : List UInt8) : (cut bytes).1.flatten ++ (cut bytes).2 = bytes := by
  induction bytes with
  | nil => rfl
  | cons b rest ih =>
    rcases cutting : cut rest with ⟨lines, last⟩
    rw [cutting] at ih
    by_cases ends : b = LogStream.newline
    · simpa [cut, cutting, ends] using ih
    · cases lines with
      | nil => simpa [cut, cutting, ends] using ih
      | cons line lines => simpa [cut, cutting, ends] using ih

/-- Splitting loses nothing. -/
theorem append_splitAtVerdict (lines : List String) :
    (splitAtVerdict lines).1 ++ ((splitAtVerdict lines).2.elim [] Prod.snd) = lines := by
  induction lines with
  | nil => rfl
  | cons line rest ih =>
    rw [splitAtVerdict]
    split
    · rfl
    · exact congrArg (line :: ·) ih

end Transcript

end SoftPlc
