import SoftPlc.Proofs.Compile.Consumers

/-!
# What is forwarded is a line

The reader of a job publishes a line as soon as it has one, before a verdict and
behind it, and also when the line is not whole because the input has ended. In
each case the bytes of the line were collected up to the first newline, so the
text has a newline at its end or none at all. The newline is found among bytes,
and is one in the text as well, since no other character has its byte.

Whatever happens around the job while its output is read, nobody but the reader
publishes lines. So it is enough to look at the notice of each of its steps.

## Main definitions

* `IsLine`: A text with a newline at its end at most.
* `Outlet.published`: What the reader publishes in a run.

## Theorems

* `isLine_of_decode?`: A line of bytes is a line of text.
* `LogStream.isLine_take`: What the reader forwards is a line.
* `Outlet.isLine_of_published`: So are all lines that are published in any run.
-/

namespace SoftPlc

/-- The text has a newline at its end at most. -/
def IsLine (text : String) : Prop :=
  ∃ body, '\n' ∉ body ∧ (text.toList = body ∨ text.toList = body ++ ['\n'])

/-- The newline among bytes is the newline in the text. -/
theorem newline_not_mem_decode? {bytes : List UInt8} {chars : List Char}
    (hbytes : LogStream.newline ∉ bytes) (hd : Text.Utf8.decode? bytes = some chars) :
    '\n' ∉ chars := by
  intro hmem
  rw [Text.Utf8.decode?_eq_some_iff.mp hd] at hbytes
  exact hbytes ((Text.Utf8.mem_encode_ascii (by decide) chars).mpr hmem)

/-- Bytes with a newline at their end at most are such a text, if they are
    text. -/
theorem isLine_of_decode? {body bytes : List UInt8} {chars : List Char}
    (hbody : LogStream.newline ∉ body)
    (hbytes : bytes = body ∨ bytes = body ++ [LogStream.newline])
    (hd : Text.Utf8.decode? bytes = some chars) : IsLine (String.ofList chars) := by
  rcases hbytes with rfl | rfl
  · exact ⟨chars, newline_not_mem_decode? hbody hd, .inl String.toList_ofList⟩
  · rcases (Text.Utf8.decode?_concat_ascii (by decide)).mp hd with ⟨before, hbefore, rfl⟩
    exact ⟨before, newline_not_mem_decode? hbody hbefore, .inr String.toList_ofList⟩

namespace LogStream

variable {s : LogStream} {n : Notice}

/-- Who gives up publishes no line. -/
theorem kind_giveUp {reason : String} (h : (s.giveUp reason).2 = some n) :
    n.kind ≠ .compileOutput := by
  unfold giveUp at h
  split at h
  next =>
    rw [← Option.some.inj h]
    exact EventKind.noConfusion
  next => exact absurd h (by simp only [reduceCtorEq, not_false_eq_true])

theorem isLine_finishLine {body bytes : List UInt8} (hbody : newline ∉ body)
    (hbytes : bytes = body ∨ bytes = body ++ [newline]) (h : (s.finishLine bytes).2 = some n)
    (hk : n.kind = .compileOutput) : ∃ line, n = lineNotice line ∧ IsLine line := by
  unfold finishLine at h
  split at h
  next => exact absurd hk (kind_giveUp h)
  next chars hd => exact ⟨_, (Option.some.inj h).symm, isLine_of_decode? hbody hbytes hd⟩

/-- What the reader forwards is a line. -/
theorem isLine_take {input : StreamInput} (hs : s.Sound) (h : (s.take input).2 = some n)
    (hk : n.kind = .compileOutput) : ∃ line, n = lineNotice line ∧ IsLine line := by
  have hbody : newline ∉ s.unfinished.reverse := mt List.mem_reverse.mp hs.unfinished
  cases input with
  | byte b =>
      by_cases hb : b = newline
      · rw [take] at h
        simp only [if_pos hb] at h
        refine isLine_finishLine hbody (.inr ?_) h hk
        rw [List.reverse_cons, hb]
      · rw [take] at h
        simp only [if_neg hb] at h
        exact absurd h (by simp only [reduceCtorEq, not_false_eq_true])
  | interrupted => exact absurd h (by simp only [take, reduceCtorEq, not_false_eq_true])
  | failed reason =>
      rw [take] at h
      split at h
      next => exact absurd h (by simp only [reduceCtorEq, not_false_eq_true])
      next => exact absurd hk (kind_giveUp h)
  | ended =>
      rw [take] at h
      dsimp only at h
      split at h
      next => exact absurd h (by simp only [reduceCtorEq, not_false_eq_true])
      next => exact isLine_finishLine hbody (.inl rfl) h hk

/-- The other writes of the reader are about verdicts and ends. -/
theorem kind_act (h : s.act.2 = some n) : n.kind ≠ .compileOutput := by
  rw [act] at h
  cases hphase : s.phase with
  | reading =>
      rw [hphase] at h
      dsimp only at h
      split at h
      next =>
        rw [← Option.some.inj h]
        exact EventKind.noConfusion
      next => exact absurd h (by simp only [reduceCtorEq, not_false_eq_true])
  | announcing verdict =>
      rw [hphase] at h
      rw [← Option.some.inj h]
      exact EventKind.noConfusion
  | tail =>
      rw [hphase] at h
      dsimp only at h
      split at h
      next => exact absurd h (by simp only [reduceCtorEq, not_false_eq_true])
      next => exact absurd h (by simp only [reduceCtorEq, not_false_eq_true])
  | queueing | signalling | storing | raising | closing | stopped =>
      rw [hphase] at h
      exact absurd h (by simp only [reduceCtorEq, not_false_eq_true])

end LogStream

namespace Outlet

variable {o : Outlet} {n : Notice}

/-- What the reader publishes when something happens. -/
def publishes (o : Outlet) : Traffic → Option Notice
  | .input input => if o.job.stream.awaitsInput then (o.job.stream.take input).2 else none
  | .write =>
    if o.job.stream.awaitsInput || o.job.stream.isStopped then none else o.job.stream.act.2
  | _ => none

/-- What the reader publishes when several things happen in order. -/
def published (o : Outlet) : List Traffic → List Notice
  | [] => []
  | traffic :: rest => (o.publishes traffic).toList ++ (o.see traffic).published rest

theorem isLine_publishes (ho : o.Sound) {traffic : Traffic} (h : o.publishes traffic = some n)
    (hk : n.kind = .compileOutput) : ∃ line, n = LogStream.lineNotice line ∧ IsLine line := by
  cases traffic with
  | input input =>
      rw [publishes] at h
      split at h
      next => exact LogStream.isLine_take ho.reader h hk
      next => exact absurd h (by simp only [reduceCtorEq, not_false_eq_true])
  | write =>
      rw [publishes] at h
      split at h
      next => exact absurd h (by simp only [reduceCtorEq, not_false_eq_true])
      next => exact absurd hk (LogStream.kind_act h)
  | _ => exact absurd h (by simp only [publishes, reduceCtorEq, not_false_eq_true])

/-- The lines that are published in any run are lines. -/
theorem isLine_of_published (ho : o.Sound) {traffic : List Traffic}
    (h : n ∈ o.published traffic) (hk : n.kind = .compileOutput) :
    ∃ line, n = LogStream.lineNotice line ∧ IsLine line := by
  induction traffic generalizing o with
  | nil => exact absurd h List.not_mem_nil
  | cons first rest ih =>
      rcases List.mem_append.mp h with h | h
      · exact isLine_publishes ho (Option.mem_toList.mp h) hk
      · exact ih (ho.see first) h

end Outlet

end SoftPlc
