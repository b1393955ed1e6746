import SoftPlc.Compile.Job
import Mathlib.Data.List.Basic

/-!
# What polling returns

The output of a compile job may be polled while others take lines off the same
queue. A line goes to whoever comes first, so the text that a poll returns is
made of the lines that nobody else has taken: all of them that have been
queued by then, in order. This holds after anything that can be done to a job,
however it is interleaved.

What others take is known by its position, because lines may be equal. Each
position is taken before those behind it are, so what others have taken lies
in front of what is still on the queue. Hence a poll takes the whole rest.

That a job is over is never taken back.

## Main definitions

* `Deed`: Something that is done to a job.
* `Desk`: A job, and what others have taken of its output.
* `Desk.kept`: The lines that nobody else has taken.

## Theorems

* `isTerminal_deed`: A job that is over stays so.
* `poll_after`: What polling returns after anything.
-/

namespace SoftPlc

/-- Something that is done to a job. -/
inductive Deed where
  /-- Its reader takes input. -/
  | take (input : StreamInput)
  /-- Its reader makes its next write. -/
  | write
  /-- Its compiler exits. -/
  | exit (code : Option Int)
  /-- Its output is polled. -/
  | poll
  /-- Another consumer takes a line. -/
  | line
  /-- Other consumers begin to wait for a line, or do not wait any more. -/
  | await (waiters : List Waiter)
  deriving DecidableEq, Repr

namespace Job

/-- The job after something is done to it. -/
def deed (j : Job) : Deed → Job
  | .take input => { j with stream := (j.stream.take input).1 }
  | .write => { j with stream := j.stream.act.1 }
  | .exit code => j.exit code
  | .poll => j.pollOutput.2
  | .line => { j with stream := j.stream.next?.2 }
  | .await waiters => { j with stream := { j.stream with waiters } }

end Job

/-- The lines but for those at some positions. -/
def exceptAt (lines : List String) (positions : List Nat) : List String :=
  (lines.zipIdx.filter fun line => !positions.contains line.2).map Prod.fst

/-- A job, and what others have taken of its output. -/
structure Desk where
  job : Job
  /-- The positions of the lines that others have taken. -/
  elsewhere : List Nat := []

namespace Desk

/-- A new job for a source. -/
def start (source : List UInt8) : Desk :=
  { job := .start source }

/-- Something is done to the job. -/
def see (d : Desk) (deed : Deed) : Desk where
  job := d.job.deed deed
  elsewhere :=
    match deed with
    | .line => d.elsewhere ++ (d.job.stream.front?.map LogLine.position).toList
    | _ => d.elsewhere

/-- Several things are done in order. -/
def after (d : Desk) (deeds : List Deed) : Desk :=
  deeds.foldl see d

/-- The lines that have been queued and that nobody else has taken. -/
def kept (d : Desk) : List String :=
  exceptAt d.job.stream.queued.toList d.elsewhere

end Desk

namespace LogStream

/-- A reader that takes input touches nothing that it shares. -/
theorem shared_giveUp (s : LogStream) (reason : String) :
    (s.giveUp reason).1.queued = s.queued ∧ (s.giveUp reason).1.taken = s.taken ∧
      (s.giveUp reason).1.raised = s.raised := by
  unfold giveUp
  split
  next => exact ⟨rfl, rfl, rfl⟩
  next => exact ⟨rfl, rfl, rfl⟩

theorem shared_finishLine (s : LogStream) (bytes : List UInt8) :
    (s.finishLine bytes).1.queued = s.queued ∧ (s.finishLine bytes).1.taken = s.taken ∧
      (s.finishLine bytes).1.raised = s.raised := by
  unfold finishLine
  split
  next => exact shared_giveUp s notTextReason
  next => exact ⟨rfl, rfl, rfl⟩

/-- A reader that takes input touches nothing that it shares with consumers. -/
theorem shared_take (s : LogStream) (input : StreamInput) :
    (s.take input).1.queued = s.queued ∧ (s.take input).1.taken = s.taken ∧
      (s.take input).1.raised = s.raised := by
  cases input with
  | byte b =>
      rw [take]
      split
      next => exact shared_finishLine s _
      next => exact ⟨rfl, rfl, rfl⟩
  | interrupted => exact ⟨rfl, rfl, rfl⟩
  | failed reason =>
      rw [take]
      split
      next => exact ⟨rfl, rfl, rfl⟩
      next => exact shared_giveUp s _
  | ended =>
      rw [take]
      dsimp only
      split
      next => exact ⟨rfl, rfl, rfl⟩
      next => exact shared_finishLine { s with inputEnded := true } _

/-- Its writes only add to the queue, and only raise the flag. -/
theorem shared_act (s : LogStream) :
    (∃ more, s.act.1.queued.toList = s.queued.toList ++ more) ∧ s.act.1.taken = s.taken ∧
      (s.raised = true → s.act.1.raised = true) := by
  have hsame : ∀ t : LogStream, t.queued = s.queued → t.taken = s.taken →
      (s.raised = true → t.raised = true) →
      (∃ more, t.queued.toList = s.queued.toList ++ more) ∧ t.taken = s.taken ∧
        (s.raised = true → t.raised = true) := by
    intro t hqueued htaken hraised
    exact ⟨⟨[], by rw [hqueued, List.append_nil]⟩, htaken, hraised⟩
  unfold act
  split
  next =>
    split
    next => exact hsame _ rfl rfl id
    next => exact hsame s rfl rfl id
  next line _ => exact ⟨⟨[line], Array.toList_push⟩, rfl, id⟩
  next => exact hsame _ rfl rfl id
  next => exact hsame _ rfl rfl id
  next => exact hsame _ rfl rfl id
  next => exact hsame _ rfl rfl fun _ => rfl
  next => exact hsame _ rfl rfl id
  next =>
    split
    next => exact hsame _ rfl rfl id
    next => exact hsame s rfl rfl id
  next => exact hsame s rfl rfl id

theorem next?_eq (s : LogStream) :
    s.next?.2 = { s with taken := if s.taken < s.queued.size then s.taken + 1 else s.taken } := by
  rw [next?, front?]
  by_cases h : s.taken < s.queued.size
  · rw [Array.getElem?_eq_getElem h, if_pos h]
    rfl
  · rw [Array.getElem?_eq_none (Nat.le_of_not_lt h), if_neg h]
    rfl

/-- What a drain hands out is the rest of what was queued. -/
theorem text_waiting (s : LogStream) :
    s.waiting.map LogLine.text = s.queued.toList.drop s.taken := by
  rw [waiting, List.map_map]
  exact List.zipIdx_map_fst 0 _

end LogStream

theorem exceptAt_append (a b : List String) {positions : List Nat}
    (h : ∀ p ∈ positions, p < a.length) :
    exceptAt (a ++ b) positions = exceptAt a positions ++ b := by
  have hfresh : (b.zipIdx a.length).filter (fun line => !positions.contains line.2)
      = b.zipIdx a.length := by
    rw [List.filter_eq_self]
    intro line hmem
    have hle : a.length ≤ line.2 := (List.mem_zipIdx hmem).1
    rw [Bool.not_eq_true', List.contains_eq_mem, decide_eq_false_iff_not]
    intro hp
    have hlt := h _ hp
    omega
  rw [exceptAt, List.zipIdx_append, List.filter_append, List.map_append, Nat.zero_add, hfresh,
    List.zipIdx_map_fst]
  rfl

/-- A line that is taken as the next one leaves those before it as they are. -/
theorem exceptAt_taken (a : List String) (line : String) (positions : List Nat) :
    exceptAt (a ++ [line]) (positions ++ [a.length]) = exceptAt a positions := by
  have hbefore : (a.zipIdx.filter fun l => !(positions ++ [a.length]).contains l.2)
      = a.zipIdx.filter fun l => !positions.contains l.2 := by
    refine List.filter_congr fun l hl => ?_
    have hlt : l.2 < a.length := by
      have hmem := (List.mem_zipIdx hl).2.1
      omega
    have hne : l.2 ≠ a.length := Nat.ne_of_lt hlt
    simp [List.contains_eq_mem, hne]
  rw [exceptAt, List.zipIdx_append, List.filter_append, List.map_append, hbefore]
  simp [exceptAt]

namespace Job

/-- A job that is over stays so, whatever is done to it. -/
theorem isTerminal_deed {j : Job} (h : j.isTerminal = true) (deed : Deed) :
    (j.deed deed).isTerminal = true := by
  cases deed with
  | take input => exact (LogStream.shared_take j.stream input).2.2.trans h
  | write => exact (LogStream.shared_act j.stream).2.2 h
  | exit code => exact h
  | poll => exact h
  | line =>
      rw [Job.deed, isTerminal, LogStream.next?_eq]
      exact h
  | await waiters => exact h

/-- A job is made from what it was made from, whatever is done to it. -/
theorem source_deed (j : Job) (deed : Deed) : (j.deed deed).source = j.source := by
  cases deed <;> rfl

end Job

namespace Desk

/-- What was polled is what has been taken, but for what others have. -/
structure Sound (d : Desk) : Prop where
  taken : d.job.stream.taken ≤ d.job.stream.queued.size
  elsewhere : ∀ p ∈ d.elsewhere, p < d.job.stream.taken
  polled : d.job.polled
    = String.join (exceptAt (d.job.stream.queued.toList.take d.job.stream.taken) d.elsewhere)

variable {d : Desk}

theorem sound_start (source : List UInt8) : (start source).Sound where
  taken := Nat.le_refl 0
  elsewhere := fun _ hp => absurd hp List.not_mem_nil
  polled := rfl

/-- What is still on the queue is nobody's yet. -/
theorem Sound.kept_eq (h : d.Sound) : d.kept
    = exceptAt (d.job.stream.queued.toList.take d.job.stream.taken) d.elsewhere
      ++ d.job.stream.queued.toList.drop d.job.stream.taken := by
  have hlength : (d.job.stream.queued.toList.take d.job.stream.taken).length
      = d.job.stream.taken := by
    rw [List.length_take, Array.length_toList]
    exact Nat.min_eq_left h.taken
  rw [← exceptAt_append _ _ (by rw [hlength]; exact h.elsewhere), List.take_append_drop]
  rfl

/-- A poll returns what has been queued and what nobody else has taken. -/
theorem Sound.poll (h : d.Sound) : d.job.pollOutput.1 = String.join d.kept := by
  rw [h.kept_eq, String.join_append, ← h.polled, ← LogStream.text_waiting]
  rfl

/-- The reader adds behind what was taken, and touches nothing else. -/
theorem Sound.of_reader (h : d.Sound) {job : Job} (hpolled : job.polled = d.job.polled)
    (hqueued : ∃ more, job.stream.queued.toList = d.job.stream.queued.toList ++ more)
    (htaken : job.stream.taken = d.job.stream.taken) : Sound { d with job } := by
  rcases hqueued with ⟨more, hmore⟩
  have hsize : d.job.stream.queued.size ≤ job.stream.queued.size := by
    rw [← Array.length_toList, ← Array.length_toList, hmore, List.length_append]
    omega
  refine ⟨?_, ?_, ?_⟩
  · rw [htaken]
    exact Nat.le_trans h.taken hsize
  · rw [htaken]
    exact h.elsewhere
  · have hprefix : job.stream.queued.toList.take d.job.stream.taken
        = d.job.stream.queued.toList.take d.job.stream.taken := by
      rw [hmore, List.take_append_of_le_length]
      rw [Array.length_toList]
      exact h.taken
    rw [htaken, hpolled, hprefix]
    exact h.polled

/-- Whatever is done to a job, what was polled is what has been taken but for
    what others have. -/
theorem Sound.see (h : d.Sound) (deed : Deed) : (d.see deed).Sound := by
  cases deed with
  | take input =>
      rcases LogStream.shared_take d.job.stream input with ⟨hqueued, htaken, _⟩
      exact h.of_reader rfl ⟨[], by rw [Job.deed, hqueued, List.append_nil]⟩ htaken
  | write =>
      rcases LogStream.shared_act d.job.stream with ⟨hqueued, htaken, _⟩
      exact h.of_reader rfl hqueued htaken
  | exit code => exact h.of_reader rfl ⟨[], (List.append_nil _).symm⟩ rfl
  | await waiters => exact h.of_reader rfl ⟨[], (List.append_nil _).symm⟩ rfl
  | poll =>
      refine ⟨Nat.le_refl _, fun p hp => ?_, ?_⟩
      · exact Nat.lt_of_lt_of_le (h.elsewhere p hp) h.taken
      · have hall : d.job.stream.queued.toList.take d.job.stream.queued.size
            = d.job.stream.queued.toList := by
          rw [← Array.length_toList, List.take_length]
        change d.job.pollOutput.1 = String.join (exceptAt (d.job.stream.queued.toList.take
          d.job.stream.queued.size) d.elsewhere)
        rw [hall, h.poll]
        rfl
  | line =>
      by_cases hlt : d.job.stream.taken < d.job.stream.queued.size
      · have hsee : d.see .line = {
            job := { d.job with stream := { d.job.stream with taken := d.job.stream.taken + 1 } }
            elsewhere := d.elsewhere ++ [d.job.stream.taken] } := by
          rw [Desk.see, Job.deed, LogStream.next?_eq, if_pos hlt, LogStream.front?,
            Array.getElem?_eq_getElem hlt]
          rfl
        have hlength : (d.job.stream.queued.toList.take d.job.stream.taken).length
            = d.job.stream.taken := by
          rw [List.length_take, Array.length_toList]
          exact Nat.min_eq_left h.taken
        have htake : d.job.stream.queued.toList.take (d.job.stream.taken + 1)
            = d.job.stream.queued.toList.take d.job.stream.taken
              ++ [d.job.stream.queued[d.job.stream.taken]] := by
          rw [List.take_add_one, Array.getElem?_toList, Array.getElem?_eq_getElem hlt]
          rfl
        -- The line that is taken elsewhere is left out of what is polled.
        have hsame := exceptAt_taken (d.job.stream.queued.toList.take d.job.stream.taken)
          d.job.stream.queued[d.job.stream.taken] d.elsewhere
        rw [hlength, ← htake] at hsame
        rw [hsee]
        refine ⟨hlt, fun p hp => ?_, ?_⟩
        · rcases List.mem_append.mp hp with hbefore | hlast
          · exact Nat.lt_succ_of_lt (h.elsewhere p hbefore)
          · rw [List.mem_singleton.mp hlast]
            exact Nat.lt_succ_self _
        · exact h.polled.trans (congrArg String.join hsame.symm)
      · -- Nothing is on the queue, and nothing is taken.
        have hsee : d.see .line = d := by
          rw [Desk.see, Job.deed, LogStream.next?_eq, if_neg hlt, LogStream.front?,
            Array.getElem?_eq_none (Nat.le_of_not_lt hlt)]
          exact congrArg (Desk.mk d.job) (List.append_nil d.elsewhere)
        rw [hsee]
        exact h

/-- After anything that is done to a job, a poll returns what has been queued
    and what nobody else has taken. -/
theorem poll_after (source : List UInt8) (deeds : List Deed) :
    ((start source).after deeds).job.pollOutput.1
      = String.join ((start source).after deeds).kept := by
  have hafter : ∀ d : Desk, d.Sound → (d.after deeds).Sound := by
    induction deeds with
    | nil => exact fun d h => h
    | cons deed rest ih => exact fun d h => ih (d.see deed) (h.see deed)
  exact (hafter _ (sound_start source)).poll

/-- The job at a desk is what was done to it, and does not depend on what is
    noted of others. -/
theorem job_after (d : Desk) (deeds : List Deed) :
    (d.after deeds).job = deeds.foldl Job.deed d.job := by
  induction deeds generalizing d with
  | nil => rfl
  | cons deed rest ih => exact ih (d.see deed)

end Desk

end SoftPlc
