import SoftPlc.Proofs.Compile.Cutting

/-!
# What a reader has ahead of it

A reader of compiler output works byte by byte and write by write, and its
transcript is said of all bytes at once. The two are compared at every moment
in between: `outlook` says what a reader in a given state will still queue and
publish, and how the stream will end, if the rest of the input is as given.
What has been queued and published already, followed by the outlook, is the
account of the reader, and no step of it changes the account. So the account
at the end is the account at the beginning, and that is the transcript.

The rest of the input enters only as the lines it will come to. They depend on
the bytes of the unfinished line followed by the bytes to come, so a byte that
moves from one to the other changes nothing. At a newline the unfinished line
is the first of those lines, and this is where the cutting of the whole output
is opened.

## Main definitions

* `LogStream.ahead`: The lines a reader has ahead of it.
* `LogStream.outlook`: What it will make of them.
* `LogStream.account`: What it has done and will do.
* `LogStream.Sound`: What is true of a reader at any moment.

## Theorems

* `LogStream.account_take_byte`, `LogStream.account_take_failed`,
  `LogStream.account_take_ended`: Input does not change the account.
* `LogStream.account_act`: Neither does a write.
* `LogStream.sound_take`, `LogStream.sound_act`: A reader stays sound.
-/

namespace SoftPlc

/-- What the end of an input looks like to the reader. -/
def Closing.input : Closing → StreamInput
  | ended => .ended
  | failed reason => .failed reason

namespace LogStream

/-- The lines that the unfinished one and the bytes to come will make, and the
    failure that ends them, if one does. -/
def ahead (s : LogStream) (bytes : List UInt8) (closing : Closing) : List String × Option String :=
  match s.inputEnded with
  | true => ([], none)
  | false => Transcript.toCome (s.unfinished.reverse ++ bytes) closing

/-- The events for the lines behind the end of a stream. -/
def tailNotices : StreamEnd → List String → List Notice
  | .finished _, lines => lines.map lineNotice
  | _, _ => []

/-- What a reader makes of the lines ahead of it once it has signalled one. -/
def afterLine : Option Verdict → List String × Option String → Transcript
  | some verdict, next => .ofVerdict verdict next.1
  | none, next => .ofLines next.1 next.2

/-- What a reader makes of the lines ahead of it. Once the end of the stream is
    stored, it is that one. -/
def outlook (s : LogStream) (next : List String × Option String) : Transcript :=
  match s.phase with
  | .reading => .ofLines next.1 next.2
  | .queueing line => (afterLine (Verdict.detect line.toList) next).behind [line] []
  | .signalling verdict => afterLine verdict next
  | .announcing verdict => .ofVerdict verdict next.1
  | .storing streamEnd => ⟨[], streamEnd, tailNotices streamEnd next.1⟩
  | .raising streamEnd => ⟨[], s.streamEnd.getD default, tailNotices streamEnd next.1⟩
  | .closing streamEnd => ⟨[], s.streamEnd.getD default, tailNotices streamEnd next.1⟩
  | .tail => ⟨[], s.streamEnd.getD default, next.1.map lineNotice⟩
  | .stopped => ⟨[], s.streamEnd.getD default, []⟩

/-- What a reader has queued and published, followed by what it will. -/
def account (s : LogStream) (published : List Notice) (next : List String × Option String) :
    Transcript :=
  (s.outlook next).behind s.queued.toList published

/-- The end of the stream is stored. -/
def hasEnd (s : LogStream) : Bool :=
  match s.phase with
  | .raising _ => true
  | .closing _ => true
  | .tail => true
  | .stopped => true
  | _ => false

/-- The flag is up. -/
def hasFlag (s : LogStream) : Bool :=
  match s.phase with
  | .closing _ => true
  | .tail => true
  | .stopped => true
  | _ => false

/-- What is true of a reader at any moment. -/
structure Sound (s : LogStream) : Prop where
  /-- The unfinished line is unfinished. -/
  unfinished : newline ∉ s.unfinished
  /-- Nothing is unfinished once the input has ended. -/
  ended : s.inputEnded → s.unfinished = []
  /-- The end is stored exactly when it should be. -/
  stored : s.streamEnd.isSome = s.hasEnd
  /-- The flag is raised exactly when it should be. -/
  raised : s.raised = s.hasFlag

/-- While the input goes on, what is ahead is what the unfinished line and the
    bytes to come make together. -/
theorem ahead_of_open (s : LogStream) (bytes : List UInt8) (closing : Closing)
    (h : s.inputEnded = false) :
    s.ahead bytes closing = Transcript.toCome (s.unfinished.reverse ++ bytes) closing := by
  rw [ahead, h]

theorem ahead_of_ended (s : LogStream) (bytes : List UInt8) (closing : Closing)
    (h : s.inputEnded = true) : s.ahead bytes closing = ([], none) := by
  rw [ahead, h]

/-- A reader that awaits input has a line open, before a verdict or after it. -/
theorem awaitsInput_cases (s : LogStream) (h : s.awaitsInput = true) :
    s.inputEnded = false ∧ (s.phase = .reading ∨ s.phase = .tail) := by
  unfold awaitsInput at h
  split at h <;> simp_all

/-- A whole line that is text is the first of the lines ahead. -/
theorem account_finishLine (s : LogStream) (bytes : List UInt8) (published : List Notice)
    (rest : List String × Option String) (text : List Char)
    (hp : s.phase = .reading ∨ s.phase = .tail) (hd : Text.Utf8.decode? bytes = some text) :
    (s.finishLine bytes).1.account (published ++ (s.finishLine bytes).2.toList) rest
      = s.account published (String.ofList text :: rest.1, rest.2) := by
  unfold finishLine
  rw [hd]
  rcases hp with hp | hp
  · simp only [account, outlook, hp, Transcript.ofLines, Option.toList_some,
      Transcript.behind_behind]
    rcases Verdict.detect (String.ofList text).toList with _ | verdict
    · simp only [afterLine, List.append_nil]
    · simp only [afterLine, List.append_nil]
  · simp [account, outlook, hp, Transcript.behind]

/-- A reader that gives up has nothing ahead of it but the reason. -/
theorem account_giveUp (s : LogStream) (reason : String) (published : List Notice)
    (rest : List String × Option String) (hp : s.phase = .reading ∨ s.phase = .tail) :
    (s.giveUp reason).1.account (published ++ (s.giveUp reason).2.toList) rest
      = s.account published ([], some reason) := by
  unfold giveUp
  rcases hp with hp | hp <;>
    simp [account, outlook, hp, Transcript.ofLines, Transcript.ofEnd, tailNotices,
      Transcript.behind]

/-- A byte that is taken goes from what is ahead into what is done, and the
    account stays the same. -/
theorem account_take_byte (s : LogStream) (b : UInt8) (bytes : List UInt8) (closing : Closing)
    (published : List Notice) (hs : s.Sound) (hw : s.awaitsInput = true) :
    (s.take (.byte b)).1.account (published ++ (s.take (.byte b)).2.toList)
        ((s.take (.byte b)).1.ahead bytes closing)
      = s.account published (s.ahead (b :: bytes) closing) := by
  rcases awaitsInput_cases s hw with ⟨hopen, hp⟩
  rw [ahead_of_open s _ _ hopen]
  by_cases hb : b = newline
  · -- The newline makes the unfinished line the first of those ahead.
    have hu : newline ∉ s.unfinished.reverse := by
      rw [List.mem_reverse]
      exact hs.unfinished
    have hrev : (b :: s.unfinished).reverse = s.unfinished.reverse ++ [newline] := by
      rw [List.reverse_cons, hb]
    rw [hb, Transcript.toCome_line _ _ _ hu, ← hrev, ← hb]
    simp only [take, if_pos hb]
    rcases hd : Text.Utf8.decode? (b :: s.unfinished).reverse with _ | text
    · simp only [finishLine, hd]
      exact account_giveUp s _ _ _ hp
    · have hnext : (s.finishLine (b :: s.unfinished).reverse).1.ahead bytes closing
          = Transcript.toCome bytes closing := by
        simp only [finishLine, hd]
        rw [ahead_of_open _ _ _ (by exact hopen)]
        rfl
      rw [hnext]
      exact account_finishLine s _ published _ text hp hd
  · -- Any other byte moves to the unfinished line.
    simp only [take, if_neg hb, Option.toList_none, List.append_nil]
    rw [ahead_of_open _ _ _ (by exact hopen)]
    simp only [List.reverse_cons, List.append_assoc, List.singleton_append]
    rfl

/-- So does a failure to read, which is the end of the input unless it is an
    interruption. -/
theorem account_take_failed (s : LogStream) (reason : Failure) (published : List Notice)
    (next : List String × Option String) (hs : s.Sound) (hw : s.awaitsInput = true)
    (hr : reason.isInterrupted = false) :
    (s.take (.failed reason)).1.account (published ++ (s.take (.failed reason)).2.toList) next
      = s.account published (s.ahead [] (.failed reason)) := by
  rcases awaitsInput_cases s hw with ⟨hopen, hp⟩
  have hu : newline ∉ s.unfinished.reverse := by
    rw [List.mem_reverse]
    exact hs.unfinished
  rw [ahead_of_open s _ _ hopen, List.append_nil, Transcript.toCome_failed _ _ hu]
  simp only [take, hr, Bool.false_eq_true, if_false]
  exact account_giveUp s _ _ _ hp

/-- So does the end of the input, which finishes the line that is unfinished. -/
theorem account_take_ended (s : LogStream) (published : List Notice)
    (hs : s.Sound) (hw : s.awaitsInput = true) :
    (s.take .ended).1.account (published ++ (s.take .ended).2.toList)
        ((s.take .ended).1.ahead [] .ended)
      = s.account published (s.ahead [] .ended) := by
  rcases awaitsInput_cases s hw with ⟨hopen, hp⟩
  have hu : newline ∉ s.unfinished.reverse := by
    rw [List.mem_reverse]
    exact hs.unfinished
  rw [ahead_of_open s _ _ hopen, List.append_nil, Transcript.toCome_ended _ hu]
  by_cases he : s.unfinished = []
  · simp only [take, he, List.isEmpty_nil, if_true, List.reverse_nil, Option.toList_none,
      List.append_nil]
    rw [ahead_of_ended _ _ _ rfl]
    rfl
  · -- What stands behind the last newline is a line as well.
    have hne : s.unfinished.reverse ≠ [] := by
      rw [ne_eq, List.reverse_eq_nil_iff]
      exact he
    simp only [take, List.isEmpty_iff, if_neg he, if_neg hne]
    rcases hd : Text.Utf8.decode? s.unfinished.reverse with _ | text
    · simp only [finishLine, hd]
      exact account_giveUp { s with inputEnded := true } _ _ _ hp
    · have hnext : (({ s with inputEnded := true } : LogStream).finishLine
          s.unfinished.reverse).1.ahead [] .ended = ([], none) := by
        rw [ahead_of_ended]
        simp only [finishLine, hd]
      rw [hnext]
      exact account_finishLine { s with inputEnded := true } _ published ([], none) text hp hd

theorem ahead_congr (s t : LogStream) (bytes : List UInt8) (closing : Closing)
    (hu : t.unfinished = s.unfinished) (he : t.inputEnded = s.inputEnded) :
    t.ahead bytes closing = s.ahead bytes closing := by
  rw [ahead, ahead, hu, he]

/-- Between two inputs the reader does not touch what it has read. -/
theorem act_input (s : LogStream) :
    s.act.1.unfinished = s.unfinished ∧ s.act.1.inputEnded = s.inputEnded := by
  unfold act
  split
  case h_1 => split <;> exact ⟨rfl, rfl⟩
  case h_8 => split <;> exact ⟨rfl, rfl⟩
  all_goals exact ⟨rfl, rfl⟩

/-- What the reader writes was ahead before it was written. Together with the
    three lemmas on input this is why the account can be read off at any moment,
    and off the last one in particular. -/
theorem account_act (s : LogStream) (bytes : List UInt8) (closing : Closing)
    (published : List Notice) :
    s.act.1.account (published ++ s.act.2.toList) (s.act.1.ahead bytes closing)
      = s.account published (s.ahead bytes closing) := by
  rw [ahead_congr s s.act.1 bytes closing (act_input s).1 (act_input s).2]
  by_cases he : s.inputEnded = true
  · -- The end of the input is noticed at the end of a line, before a verdict or after it.
    rw [ahead_of_ended s bytes closing he]
    rcases hp : s.phase with _ | _ | ⟨_ | _⟩ | _ | _ | _ | ⟨_ | _ | _⟩ | _ | _ <;>
      simp [act, hp, he, account, outlook, signal, afterLine, tailNotices, Transcript.ofLines,
        Transcript.ofEnd, Transcript.ofVerdict, Transcript.behind]
  · generalize s.ahead bytes closing = next
    rcases hp : s.phase with _ | _ | ⟨_ | _⟩ | _ | _ | _ | ⟨_ | _ | _⟩ | _ | _ <;>
      simp [act, hp, he, account, outlook, signal, afterLine, tailNotices, Transcript.ofVerdict,
        Transcript.behind]

/-- A reader that has read nothing is sound. -/
theorem sound_initial : Sound {} where
  unfinished := List.not_mem_nil
  ended := fun _ => rfl
  stored := rfl
  raised := rfl

/-- Giving up leaves nothing unfinished, so only the end and the flag matter. -/
theorem sound_giveUp (s : LogStream) (reason : String)
    (hp : s.phase = .reading ∨ s.phase = .tail) (hstored : s.streamEnd.isSome = s.hasEnd)
    (hraised : s.raised = s.hasFlag) : (s.giveUp reason).1.Sound := by
  rcases hp with hp | hp
  · simp only [hasEnd, hasFlag, hp] at hstored hraised
    simp only [giveUp, hp]
    exact ⟨List.not_mem_nil, fun _ => rfl, hstored, hraised⟩
  · simp only [hasEnd, hasFlag, hp] at hstored hraised
    simp only [giveUp, hp]
    exact ⟨List.not_mem_nil, fun _ => rfl, hstored, hraised⟩

theorem sound_finishLine (s : LogStream) (bytes : List UInt8)
    (hp : s.phase = .reading ∨ s.phase = .tail) (hstored : s.streamEnd.isSome = s.hasEnd)
    (hraised : s.raised = s.hasFlag) : (s.finishLine bytes).1.Sound := by
  unfold finishLine
  split
  next => exact sound_giveUp s _ hp hstored hraised
  next =>
    rcases hp with hp | hp
    · simp only [hasEnd, hasFlag, hp] at hstored hraised
      simp only [hp]
      exact ⟨List.not_mem_nil, fun _ => rfl, hstored, hraised⟩
    · simp only [hasEnd, hasFlag, hp] at hstored hraised
      simp only [hp]
      exact ⟨List.not_mem_nil, fun _ => rfl, hstored, hraised⟩

/-- Input keeps the reader sound: no newline is in the unfinished line. -/
theorem sound_take (s : LogStream) (input : StreamInput) (hs : s.Sound)
    (hw : s.awaitsInput = true) : (s.take input).1.Sound := by
  rcases awaitsInput_cases s hw with ⟨hopen, hp⟩
  cases input with
  | byte b =>
      by_cases hb : b = newline
      · simp only [take, if_pos hb]
        exact sound_finishLine s _ hp hs.stored hs.raised
      · simp only [take, if_neg hb]
        refine ⟨?_, fun h => absurd (hopen.symm.trans h) Bool.false_ne_true, hs.stored, hs.raised⟩
        intro hm
        rcases List.mem_cons.mp hm with hm | hm
        · exact hb hm.symm
        · exact hs.unfinished hm
  | interrupted => exact hs
  | failed reason =>
      simp only [take]
      split
      next => exact hs
      next => exact sound_giveUp s _ hp hs.stored hs.raised
  | ended =>
      simp only [take, List.isEmpty_iff]
      split
      next he => exact ⟨hs.unfinished, fun _ => he, hs.stored, hs.raised⟩
      next => exact sound_finishLine _ _ hp hs.stored hs.raised

/-- So do its writes. -/
theorem sound_act (s : LogStream) (hs : s.Sound) : s.act.1.Sound := by
  have hstored := hs.stored
  have hraised := hs.raised
  refine ⟨by rw [(act_input s).1]; exact hs.unfinished, ?_, ?_, ?_⟩
  · rw [(act_input s).1, (act_input s).2]
    exact hs.ended
  · simp only [hasEnd] at hstored
    rcases hp : s.phase with _ | _ | ⟨_ | _⟩ | _ | _ | _ | ⟨_ | _ | _⟩ | _ | _ <;>
      rw [hp] at hstored <;> by_cases he : s.inputEnded = true <;>
      simp_all [act, signal, hasEnd]
  · simp only [hasFlag] at hraised
    rcases hp : s.phase with _ | _ | ⟨_ | _⟩ | _ | _ | _ | ⟨_ | _ | _⟩ | _ | _ <;>
      rw [hp] at hraised <;> by_cases he : s.inputEnded = true <;>
      simp_all [act, signal, hasFlag]

end LogStream

end SoftPlc
