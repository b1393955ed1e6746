import SoftPlc.Proofs.Compile.Consumers

/-!
# The end of a stream

Three things are shared by the reader of a job and its consumers: the queue, the
end of the stream and the flag that it has ended. A fourth, the exit code, is
stored by someone else, at any time. All of them are written separately and may
be looked at in any order and between any two writes. So what a consumer has
seen of one of them says something about the others only if no write in between
can undo it.

Each of them is written in one direction. `Outlet.Later` says so for whatever
may come between two moments: the flag stays up, what was taken stays taken, an
exit code that is there stays, and an end that is there stays and is the end of
the queue as well. The last is where the order of the reader's writes matters.
The reader stores the end when the last line is on the queue, and nothing but
the end stands between it and the flag. Hence the flag promises the end, the end
promises the report, and who drains the queue after the flag was seen takes the
last there is to take.

A report says that a compilation has succeeded as long as there is no exit code
to the contrary. It may be wrong about that, and then it is the exit code that
sets it right; but it never says so after it has said otherwise.

## Main definitions

* `Incident`: Something that happens around a job, the exit of its compiler
  included.
* `StreamEnd.Concludes`: The lines that lead to an end.
* `Outlet.Later`: What is never taken back.

## Theorems

* `Transcript.concludes_ofLines`: A verdict is announced in the last line.
* `Outlet.later_through`: Nothing of it is taken back in any run.
* `Outlet.exited_through`: The first exit of the compiler counts.
* `ended_for_good`: What the flag, the end and the report promise.
-/

namespace SoftPlc

/-- Something that happens around a job. -/
inductive Incident where
  | traffic (traffic : Traffic)
  /-- The exit code of the compiler is stored. -/
  | exit (code : Option Int)
  deriving DecidableEq, Repr

/-- The exit of the compiler, if it is one. -/
def Incident.exit? : Incident → Option (Option Int)
  | exit code => some code
  | traffic _ => none

/-- The lines that lead to this end of a stream. -/
def StreamEnd.Concludes (queued : List String) : StreamEnd → Prop
  | .finished verdict => ∃ before line, queued = before ++ [line] ∧
      Verdict.detect line.toList = some verdict ∧
      ∀ earlier ∈ before, Verdict.detect earlier.toList = none
  | _ => ∀ line ∈ queued, Verdict.detect line.toList = none

namespace Outlet

/-- Something happens around the job. -/
def pass (o : Outlet) : Incident → Outlet
  | .traffic traffic => o.see traffic
  | .exit code => { o with job := o.job.exit code }

/-- Several things happen in order. -/
def through (o : Outlet) (incidents : List Incident) : Outlet :=
  incidents.foldl pass o

/-- What is never taken back: one moment of a run is before another. -/
structure Later (o o' : Outlet) : Prop where
  takings : o.takings <+: o'.takings
  raised : o.job.stream.raised = true → o'.job.stream.raised = true
  ended : ∀ streamEnd, o.job.stream.streamEnd = some streamEnd →
    o'.job.stream.streamEnd = some streamEnd ∧ o'.job.stream.queued = o.job.stream.queued

end Outlet

/-- A line without a verdict may go before them. -/
theorem StreamEnd.Concludes.cons {streamEnd : StreamEnd} {queued : List String} {line : String}
    (h : streamEnd.Concludes queued) (hv : Verdict.detect line.toList = none) :
    streamEnd.Concludes (line :: queued) := by
  cases streamEnd with
  | finished verdict =>
      rcases h with ⟨before, last, hqueued, hlast, hbefore⟩
      exact ⟨line :: before, last, by rw [hqueued, List.cons_append], hlast,
        List.forall_mem_cons.mpr ⟨hv, hbefore⟩⟩
  | unexpectedEof => exact List.forall_mem_cons.mpr ⟨hv, h⟩
  | readError reason => exact List.forall_mem_cons.mpr ⟨hv, h⟩

namespace Transcript

/-- A verdict is announced in the last line that is queued, and not before; and
    without a verdict none is announced at all. -/
theorem concludes_ofLines (lines : List String) (failure : Option String) :
    (ofLines lines failure).streamEnd.Concludes (ofLines lines failure).queued := by
  induction lines with
  | nil =>
      cases failure with
      | none => exact fun _ h => absurd h List.not_mem_nil
      | some reason => exact fun _ h => absurd h List.not_mem_nil
  | cons line rest ih =>
      rw [ofLines]
      cases hv : Verdict.detect line.toList with
      | some verdict => exact ⟨[], line, rfl, hv, fun _ h => absurd h List.not_mem_nil⟩
      | none => exact ih.cons hv

end Transcript

namespace LogStream

variable {s : LogStream}

/-- A reader that takes input stores no end. -/
theorem streamEnd_giveUp (s : LogStream) (reason : String) :
    (s.giveUp reason).1.streamEnd = s.streamEnd := by
  unfold giveUp
  split
  next => rfl
  next => rfl

theorem streamEnd_finishLine (s : LogStream) (bytes : List UInt8) :
    (s.finishLine bytes).1.streamEnd = s.streamEnd := by
  unfold finishLine
  split
  next => exact streamEnd_giveUp s notTextReason
  next => rfl

theorem streamEnd_take (s : LogStream) (input : StreamInput) :
    (s.take input).1.streamEnd = s.streamEnd := by
  cases input with
  | byte b =>
      rw [take]
      split
      next => exact streamEnd_finishLine s _
      next => rfl
  | interrupted => rfl
  | failed reason =>
      rw [take]
      split
      next => rfl
      next => exact streamEnd_giveUp s _
  | ended =>
      rw [take]
      dsimp only
      split
      next => rfl
      next => exact streamEnd_finishLine { s with inputEnded := true } _

/-- Once the end is stored a write changes neither the end nor the queue. -/
theorem act_of_end (h : s.hasEnd = true) :
    s.act.1.streamEnd = s.streamEnd ∧ s.act.1.queued = s.queued := by
  unfold hasEnd at h
  unfold act
  split at h
  next heq =>
    rw [heq]
    exact ⟨rfl, rfl⟩
  next heq =>
    rw [heq]
    exact ⟨rfl, rfl⟩
  next heq =>
    rw [heq]
    dsimp only
    split
    next => exact ⟨rfl, rfl⟩
    next => exact ⟨rfl, rfl⟩
  next heq =>
    rw [heq]
    exact ⟨rfl, rfl⟩
  next => exact absurd h Bool.false_ne_true

/-- Nor is anything ahead of it for the queue. -/
theorem outlook_of_end (h : s.hasEnd = true) (next : List String × Option String) :
    (s.outlook next).queued = [] ∧ (s.outlook next).streamEnd = s.streamEnd.getD default := by
  unfold hasEnd at h
  unfold outlook
  split at h
  next heq =>
    rw [heq]
    exact ⟨rfl, rfl⟩
  next heq =>
    rw [heq]
    exact ⟨rfl, rfl⟩
  next heq =>
    rw [heq]
    exact ⟨rfl, rfl⟩
  next heq =>
    rw [heq]
    exact ⟨rfl, rfl⟩
  next => exact absurd h Bool.false_ne_true

/-- The flag is not raised before the end is stored. -/
theorem Sound.end_of_flag (h : s.Sound) (hraised : s.raised = true) : s.hasEnd = true := by
  have hflag : s.hasFlag = true := h.raised.symm.trans hraised
  unfold hasFlag at hflag
  unfold hasEnd
  split at hflag
  next heq => rw [heq]
  next heq => rw [heq]
  next heq => rw [heq]
  next => exact absurd hflag Bool.false_ne_true

end LogStream

namespace Outlet

open LogStream (Hands)

variable {o o' : Outlet}

theorem Later.refl (o : Outlet) : o.Later o :=
  ⟨List.prefix_rfl, id, fun _ h => ⟨h, rfl⟩⟩

theorem Later.trans {o'' : Outlet} (h : o.Later o') (h' : o'.Later o'') : o.Later o'' where
  takings := h.takings.trans h'.takings
  raised := fun hraised => h'.raised (h.raised hraised)
  ended := by
    intro streamEnd hend
    rcases h.ended streamEnd hend with ⟨hend', hqueued⟩
    rcases h'.ended streamEnd hend' with ⟨hend'', hqueued'⟩
    exact ⟨hend'', hqueued'.trans hqueued⟩

/-- What consumers do adds to what was taken and leaves the rest as it is. -/
theorem Later.of_hands {lines : List LogLine} (hhands : o.job.stream.Hands o'.job.stream lines)
    (htakings : o.takings <+: o'.takings) : o.Later o' := by
  have hsame := hhands.same
  refine ⟨htakings, fun hraised => ?_, fun streamEnd hend => ⟨?_, hhands.queued⟩⟩
  · rw [hsame]
    exact hraised
  · rw [hsame]
    exact hend

/-- A recorded end has gone through the phases in which it is recorded. -/
theorem Sound.hasEnd (h : o.Sound) {streamEnd : StreamEnd}
    (hend : o.job.stream.streamEnd = some streamEnd) : o.job.stream.hasEnd = true := by
  rw [← h.reader.stored, hend]
  rfl

theorem later_see (h : o.Sound) (traffic : Traffic) : o.Later (o.see traffic) := by
  cases traffic with
  | input input =>
      rw [Outlet.see]
      split
      next =>
        rcases LogStream.shared_take o.job.stream input with ⟨hqueued, _, hraised⟩
        refine ⟨List.prefix_rfl, hraised.trans, fun streamEnd hend => ⟨?_, hqueued⟩⟩
        exact (LogStream.streamEnd_take _ input).trans hend
      next => exact .refl o
  | write =>
      rw [Outlet.see]
      split
      next => exact .refl o
      next =>
        refine ⟨List.prefix_rfl, (LogStream.shared_act o.job.stream).2.2, fun streamEnd hend => ?_⟩
        rcases LogStream.act_of_end (h.hasEnd hend) with ⟨hsame, hqueued⟩
        exact ⟨hsame.trans hend, hqueued⟩
  | pick who => exact .of_hands o.job.stream.hands_next? (List.prefix_append _ _)
  | drain who => exact .of_hands o.job.stream.hands_drain (List.prefix_append _ _)
  | poll who => exact .of_hands o.job.stream.hands_drain (List.prefix_append _ _)
  | await who =>
      rw [Outlet.see]
      split
      next => exact ⟨List.prefix_rfl, id, fun _ hend => ⟨hend, rfl⟩⟩
      next => exact .refl o
  | step who =>
      rw [Outlet.see]
      split
      next => exact .refl o
      next hp =>
        exact .of_hands (o.job.stream.hands_waitStep who (Bool.eq_false_iff.mpr hp))
          (List.prefix_append _ _)
  | expire who =>
      rw [Outlet.see]
      split
      next => exact .of_hands (o.job.stream.hands_expire who) (List.prefix_append _ _)
      next => exact .refl o
  | leave who => exact .of_hands (o.job.stream.hands_waiters _) (List.prefix_append _ _)

/-- What happens around an outlet keeps it sound, exits of the compiler included. -/
theorem Sound.pass (h : o.Sound) (incident : Incident) : (o.pass incident).Sound := by
  cases incident with
  | traffic traffic => exact h.see traffic
  | exit code =>
      exact ⟨h.bound, h.takings, h.polled, h.polls, h.ordered, h.reader, h.account, h.ending⟩

theorem sound_through (h : o.Sound) (incidents : List Incident) :
    (o.through incidents).Sound := by
  induction incidents generalizing o with
  | nil => exact h
  | cons first rest ih => exact ih (h.pass first)

/-- Nothing of this is taken back, however a run goes. -/
theorem later_through (h : o.Sound) (incidents : List Incident) :
    o.Later (o.through incidents) := by
  induction incidents generalizing o with
  | nil => exact .refl o
  | cons first rest ih =>
      have hfirst : o.Later (o.pass first) := by
        cases first with
        | traffic traffic => exact later_see h traffic
        | exit code => exact ⟨List.prefix_rfl, id, fun _ hend => ⟨hend, rfl⟩⟩
      exact hfirst.trans (ih (h.pass first))

theorem exited_see (o : Outlet) (traffic : Traffic) :
    (o.see traffic).job.exited = o.job.exited := by
  unfold Outlet.see
  split
  next =>
    split
    next => rfl
    next => rfl
  next =>
    split
    next => rfl
    next => rfl
  next => rfl
  next => rfl
  next => rfl
  next =>
    split
    next => rfl
    next => rfl
  next =>
    split
    next => rfl
    next => rfl
  next =>
    split
    next => rfl
    next => rfl
  next => rfl

/-- The first exit of the compiler counts, and only that. -/
theorem exited_through (o : Outlet) (incidents : List Incident) :
    (o.through incidents).job.exited
      = (o.job.exited <|> (incidents.filterMap Incident.exit?).head?) := by
  induction incidents generalizing o with
  | nil =>
      cases hexited : o.job.exited with
      | none => exact hexited
      | some code => exact hexited
  | cons first rest ih =>
      rw [through, List.foldl_cons, ← through, ih]
      cases first with
      | traffic traffic =>
          rw [pass, exited_see]
          rfl
      | exit code =>
          cases hexited : o.job.exited with
          | none => simp [pass, Job.exit, hexited, Incident.exit?]
          | some earlier => simp [pass, Job.exit, hexited]

/-- The lines that lead to the end of the stream are on the queue when it is
    there. -/
theorem Sound.concludes (h : o.Sound) {streamEnd : StreamEnd}
    (hend : o.job.stream.streamEnd = some streamEnd) :
    streamEnd.Concludes o.job.stream.queued.toList := by
  rcases h.account with ⟨published, haccount⟩
  have hcontinues : ∃ closing, o.Continues [] closing := by
    cases hclosing : o.closing with
    | none => exact ⟨.ended, .inl hclosing⟩
    | some closing => exact ⟨closing, .inr ⟨rfl, hclosing⟩⟩
  rcases hcontinues with ⟨closing, hc⟩
  rcases LogStream.outlook_of_end (h.hasEnd hend) (o.job.stream.ahead [] closing)
    with ⟨hnothing, hsame⟩
  have ht := haccount [] closing hc
  rw [Transcript.ofOutput_eq] at ht
  have hconcludes := Transcript.concludes_ofLines (Transcript.toCome (o.fed ++ []) closing).1
    (Transcript.toCome (o.fed ++ []) closing).2
  rw [← ht, LogStream.account] at hconcludes
  dsimp only [Transcript.behind] at hconcludes
  rw [hnothing, hsame, hend, List.append_nil] at hconcludes
  exact hconcludes

/-- A drain takes what is left, and there is nothing left to take once the end
    is there. -/
theorem Sound.drained (h : o.Sound) {streamEnd : StreamEnd}
    (hend : o.job.stream.streamEnd = some streamEnd) (who : Nat) (later : List Incident) :
    (o.see (.drain who)).takings.map Taking.line = o.job.stream.history ∧
      ((o.see (.drain who)).through later).takings = (o.see (.drain who)).takings := by
  have hdrained : (o.see (.drain who)).job.stream.waiting = [] := by
    rw [LogStream.waiting_eq_drop_history, List.drop_eq_nil_iff, LogStream.length_history]
    exact Nat.le_refl _
  have hsound := h.see (.drain who)
  have hall := hsound.takings
  rw [hdrained, List.append_nil] at hall
  have hlater := later_through hsound later
  have hsound' := sound_through hsound later
  have hhistory : ((o.see (.drain who)).through later).job.stream.history
      = o.job.stream.history := by
    rw [LogStream.history, LogStream.history, (hlater.ended streamEnd hend).2]
    rfl
  refine ⟨hall, (hlater.takings.eq_of_length_le ?_).symm⟩
  have hlength := congrArg List.length hsound'.takings
  rw [hhistory, ← show (o.see (.drain who)).job.stream.history = o.job.stream.history from rfl,
    ← hall, List.length_append, List.length_map, List.length_map] at hlength
  omega

end Outlet

namespace Job

variable {j j' : Job} {r : Report}

theorem report_eq_some (h : j.report = some r) :
    j.stream.streamEnd = some r.streamEnd ∧ r.exitCode = j.exited.join := by
  rcases Option.map_eq_some_iff.mp h with ⟨streamEnd, hend, rfl⟩
  exact ⟨hend, rfl⟩

theorem report_of_end {streamEnd : StreamEnd} (h : j.stream.streamEnd = some streamEnd) :
    j.report = some ⟨streamEnd, j.exited.join⟩ := by
  rw [report, h, Option.map_some]

end Job

theorem Report.succeeded_iff (r : Report) : r.succeeded = true ↔
    r.streamEnd = .finished .success ∧ (r.exitCode = none ∨ r.exitCode = some 0) := by
  rw [Report.succeeded, Bool.and_eq_true, Bool.or_eq_true, beq_iff_eq, beq_iff_eq, beq_iff_eq]

namespace Report

variable {r r' : Report}

/-- What may become of a report: its end stays, and it may get an exit code if
    it has none. -/
structure Settles (r r' : Report) : Prop where
  streamEnd : r'.streamEnd = r.streamEnd
  exitCode : r.exitCode = none ∨ r'.exitCode = r.exitCode

/-- A success can be withdrawn by an exit code, and not the other way round. -/
theorem Settles.succeeded (h : r.Settles r') (hr : r'.succeeded = true) : r.succeeded = true := by
  rw [succeeded_iff] at hr ⊢
  refine ⟨h.streamEnd.symm.trans hr.1, ?_⟩
  rcases h.exitCode with hnone | hsame
  · exact .inl hnone
  · rw [← hsame]
    exact hr.2

/-- A success is taken back for an exit code that says otherwise, and for
    nothing else. -/
theorem Settles.failed (h : r.Settles r') (hr : r.succeeded = true) (hr' : r'.succeeded = false) :
    r.exitCode = none ∧ ∃ code, code ≠ 0 ∧ r'.exitCode = some code := by
  have hnot : ¬ (r'.exitCode = none ∨ r'.exitCode = some 0) := fun hcode => by
    have hsucceeded := (succeeded_iff r').mpr
      ⟨h.streamEnd.trans ((succeeded_iff r).mp hr).1, hcode⟩
    rw [hr'] at hsucceeded
    exact Bool.false_ne_true hsucceeded
  rcases h.exitCode with hnone | hsame
  · refine ⟨hnone, ?_⟩
    cases hcode : r'.exitCode with
    | none => exact absurd (.inl hcode) hnot
    | some code =>
        exact ⟨code, fun hzero => hnot (.inr (by rw [hcode, hzero])), rfl⟩
  · rw [hsame] at hnot
    exact absurd ((succeeded_iff r).mp hr).2 hnot

end Report

namespace Outlet

variable {o : Outlet}

/-- A report may get an exit code, and stays the same otherwise. -/
theorem Sound.report (h : o.Sound) (later : List Incident) {r : Report}
    (hr : o.job.report = some r) :
    ∃ r', (o.through later).job.report = some r' ∧ r.Settles r' ∧
      r'.exitCode = (o.through later).job.exited.join := by
  rcases Job.report_eq_some hr with ⟨hend, hcode⟩
  have hend' := ((later_through h later).ended r.streamEnd hend).1
  refine ⟨_, Job.report_of_end hend', ⟨rfl, ?_⟩, rfl⟩
  rw [hcode, exited_through]
  cases o.job.exited with
  | none => exact .inl rfl
  | some code => exact .inr rfl

/-- The exit code of a report that had none has arrived in between. -/
theorem exit_of_code {later : List Incident} {code : Int} (hnone : o.job.exited.join = none)
    (hcode : (o.through later).job.exited.join = some code) :
    (later.filterMap Incident.exit?).head? = some (some code) := by
  rw [exited_through] at hcode
  cases hexited : o.job.exited with
  | none =>
      rw [hexited] at hcode
      exact Option.join_eq_some_iff.mp hcode
  | some earlier =>
      rw [hexited] at hcode hnone
      exact absurd (hcode.symm.trans hnone) (Option.some_ne_none code)

end Outlet

/-- Once the end of a stream is stored it stays, nothing more is queued, and the
    line that announced the verdict, if there is one, is the last that was. If
    the flag is up then so is the end, and there is a report; the flag stays up,
    and who drains the queue later takes all that is left, so that nobody takes
    anything any more. The end in a report stays the same and its exit code
    changes only if it had none, to that of the first exit of the compiler. So
    a report never turns into one of success, and it turns from one only for an
    exit code that tells of a failure. -/
theorem ended_for_good (source : List UInt8) (before later : List Incident) :
    let o := (Outlet.start source).through before
    let o' := o.through later
    (∀ streamEnd, o.job.stream.streamEnd = some streamEnd →
      o'.job.stream.streamEnd = some streamEnd ∧ o'.job.stream.queued = o.job.stream.queued ∧
      streamEnd.Concludes o.job.stream.queued.toList) ∧
    (o.job.isTerminal = true →
      o.job.stream.streamEnd.isSome = true ∧ o.job.report.isSome = true ∧
      o'.job.isTerminal = true ∧
      ∀ who last, (o'.see (.drain who)).takings.map Taking.line = o.job.stream.history ∧
        ((o'.see (.drain who)).through last).takings = (o'.see (.drain who)).takings) ∧
    (∀ r, o.job.report = some r → ∃ r', o'.job.report = some r' ∧
      r'.streamEnd = r.streamEnd ∧ (r.exitCode = none ∨ r'.exitCode = r.exitCode) ∧
      (r'.succeeded = true → r.succeeded = true) ∧
      (r.succeeded = true → r'.succeeded = false → r.exitCode = none ∧
        ∃ code, code ≠ 0 ∧ r'.exitCode = some code ∧
          (later.filterMap Incident.exit?).head? = some (some code)) ∧
      (∀ code, code ≠ 0 → o.job.exited = none →
        (later.filterMap Incident.exit?).head? = some (some code) → r'.succeeded = false)) := by
  intro o o'
  have ho : o.Sound := Outlet.sound_through (Outlet.sound_start source) before
  have hlater : o.Later o' := Outlet.later_through ho later
  refine ⟨fun streamEnd hend => ?_, fun hended => ?_, fun r hr => ?_⟩
  · rcases hlater.ended streamEnd hend with ⟨hend', hqueued⟩
    exact ⟨hend', hqueued, ho.concludes hend⟩
  · have hsome : o.job.stream.streamEnd.isSome = true :=
      ho.reader.stored.trans (ho.reader.end_of_flag hended)
    rcases Option.isSome_iff_exists.mp hsome with ⟨streamEnd, hend⟩
    rcases hlater.ended streamEnd hend with ⟨hend', hqueued⟩
    -- Nothing was queued in between, so what is drained later was there before.
    have hhistory : o'.job.stream.history = o.job.stream.history := by
      rw [LogStream.history, LogStream.history, hqueued]
    refine ⟨hsome, ?_, hlater.raised hended, fun who last => ?_⟩
    · rw [Job.report_of_end hend]
      rfl
    · rw [← hhistory]
      exact (Outlet.sound_through ho later).drained hend' who last
  · rcases ho.report later hr with ⟨r', hr', hsettles, hcode'⟩
    rcases Job.report_eq_some hr with ⟨_, hcode⟩
    refine ⟨r', hr', hsettles.streamEnd, hsettles.exitCode, hsettles.succeeded, ?_, ?_⟩
    · intro hsucceeded hfailed
      rcases hsettles.failed hsucceeded hfailed with ⟨hnone, code, hne, hsome⟩
      exact ⟨hnone, code, hne, hsome,
        Outlet.exit_of_code (hcode.symm.trans hnone) (hcode'.symm.trans hsome)⟩
    · intro code hne hnone hexit
      -- The first exit since is the one that the report has.
      have hsome : r'.exitCode = some code := by
        rw [hcode', Outlet.exited_through, hnone, hexit]
        rfl
      rw [Bool.eq_false_iff, ne_eq, Report.succeeded_iff, hsome]
      rintro ⟨_, hcodes | hcodes⟩
      · exact Option.some_ne_none code hcodes
      · exact hne (Option.some.inj hcodes)

end SoftPlc
