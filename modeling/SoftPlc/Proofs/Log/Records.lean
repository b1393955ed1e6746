import SoftPlc.LogRecord
import SoftPlc.Proofs.Compile.Forwarding
import SoftPlc.Proofs.Text.Visible
import Mathlib.Data.List.Basic

/-!
# Records that cannot be forged

What a reader of the log can rely on. The records of a kind begin with words of
their own, and no kind's words begin with another's. So the kind of an event is
read off its record, and no text that an event carries makes it pass for one of
another kind, quoted or not.

For the kinds whose reason is quoted the rest of the record is the quotation, and
the reason is read off that. The record then has no control character, and no
newline in particular: the reason cannot end the record and begin another one.

A line of compiler output is not quoted. It is shown without the blanks at its
end, and what is forwarded as a line has its newline there or none. It may have
other controls in it, which are shown as they are.

## Main definitions

* `EventKind.lead`: The words that the records of a kind begin with.
* `EventKind.quotes`: The records of the kind quote the reason.
* `LogRecord.told?`: The kind and the reason that a record tells.
* `Text.Trimmed`: What is shown of a line.

## Theorems

* `EventKind.lead_prefix_free`: No kind's words begin with another's.
* `LogRecord.told?_ofNotice`: A record is read back, of whatever kind it is.
* `LogRecord.newline_not_mem_line`: A forwarded line is one record.
* `LogRecord.splitOn_page`: The lines of a log are its records.
* `LogRecord.records_unforged`: Records cannot be forged by what they show.
-/

namespace SoftPlc

/-- What is shown of a line: all but the blanks at its end. -/
structure Text.Trimmed (line shown : String) : Prop where
  blanks : ∃ blanks, line.toList = shown.toList ++ blanks ∧ ∀ c ∈ blanks, Text.isBlank c = true
  last : ∀ c, shown.toList.getLast? = some c → Text.isBlank c = false

namespace EventKind

/-- Every kind. -/
def all : List EventKind :=
  [subscriberPanicked, subscriberOverflow, compileOutputSkipped, runtimeStarted, runtimeStopped,
    runtimeStopFailed, runtimeLost, runtimeExited, compileStarted, compileOutput, compileFinished,
    compileStreamEnded, compilerExited, compileSuperseded, serviceEnabled, serviceDisabled,
    controlFailed, shutdownRequested]

theorem mem_all (kind : EventKind) : kind ∈ all := by
  cases kind <;> decide

/-- The records of the kind quote the reason. -/
def quotes : EventKind → Bool
  | runtimeStopFailed => true
  | runtimeLost => true
  | compileStarted => true
  | compileFinished => true
  | compileStreamEnded => true
  | controlFailed => true
  | _ => false

/-- The words that the records of a kind begin with. -/
def lead : EventKind → String
  | subscriberPanicked => "[subscriber-panicked] "
  | subscriberOverflow => "[subscriber-overflow] "
  | compileOutputSkipped => "[compile-output-skipped] lines="
  | runtimeStarted => "[runtime-started] pid="
  | runtimeStopped => "[runtime-stopped]"
  | runtimeStopFailed => "[runtime-stop-failed] err="
  | runtimeLost => "[runtime-lost] err="
  | runtimeExited => "[runtime-exited] pid="
  | compileStarted => "[compile-started] file="
  | compileOutput => "[compile-output] "
  | compileFinished => "[compile-finished] outcome="
  | compileStreamEnded => "[compile-stream-ended] reason="
  | compilerExited => "[compiler-exited] code="
  | compileSuperseded => "[compile-superseded]"
  | serviceEnabled => "[service-enabled] service="
  | serviceDisabled => "[service-disabled] service="
  | controlFailed => "[control-failed] err="
  | shutdownRequested => "[shutdown-requested]"

/-- No kind's words begin with another's. -/
theorem lead_prefix_free {k l : EventKind} (h : k.lead.toList <+: l.lead.toList) : k = l := by
  have pairs : ∀ k ∈ all, ∀ l ∈ all, k.lead.toList <+: l.lead.toList → k = l := by
    decide +kernel
  exact pairs k (mem_all k) l (mem_all l) h

theorem isPrintable_lead (kind : EventKind) :
    ∀ c ∈ kind.lead.toList, Text.isPrintable c = true := by
  have kinds : ∀ kind ∈ all, kind.lead.toList.all Text.isPrintable = true := by
    decide +kernel
  exact List.all_eq_true.mp (kinds kind (mem_all kind))

end EventKind

namespace LogRecord

/-- The kind of event that a record is about. -/
def kind? (text : String) : Option EventKind :=
  EventKind.all.find? fun kind => kind.lead.toList.isPrefixOf text.toList

/-- The kind and the reason that a record tells, if it quotes the reason. -/
def told? (text : String) : Option (EventKind × String) := do
  let kind ← kind? text
  if kind.quotes then
    let reason ← Text.unquote? (text.toList.drop kind.lead.toList.length)
    some (kind, String.ofList reason)
  else none

/-- A record begins with the words of its kind. -/
theorem exists_text_eq (n : Notice) : ∃ details, (ofNotice n).text = n.kind.lead ++ details := by
  rw [ofNotice]
  cases n.kind with
  | runtimeStopped | compileSuperseded | shutdownRequested =>
      exact ⟨"", String.append_empty.symm⟩
  | runtimeExited | serviceEnabled =>
      dsimp only
      rw [String.append_assoc, String.append_assoc]
      exact ⟨_, rfl⟩
  | _ => exact ⟨_, rfl⟩

/-- The rest of it is the reason, if that is quoted. -/
theorem text_of_quotes {n : Notice} (h : n.kind.quotes = true) :
    (ofNotice n).text = n.kind.lead ++ Text.quoted (n.reason.getD "") := by
  rw [ofNotice]
  revert h
  cases n.kind with
  | runtimeStopFailed | runtimeLost | compileStarted | compileFinished | compileStreamEnded
  | controlFailed => exact fun _ => rfl
  | _ => exact fun h => absurd h Bool.false_ne_true

/-- A record tells the kind of its event, whatever it shows. -/
theorem kind?_ofNotice (n : Notice) : kind? (ofNotice n).text = some n.kind := by
  have hlead : n.kind.lead.toList <+: (ofNotice n).text.toList := by
    rcases exists_text_eq n with ⟨details, htext⟩
    rw [htext, String.toList_append]
    exact List.prefix_append _ _
  have hfound : (kind? (ofNotice n).text).isSome := by
    rw [kind?, List.find?_isSome]
    exact ⟨n.kind, EventKind.mem_all _, List.isPrefixOf_iff_prefix.mpr hlead⟩
  rcases Option.isSome_iff_exists.mp hfound with ⟨kind, hkind⟩
  have hother : kind.lead.toList <+: (ofNotice n).text.toList := by
    rw [kind?] at hkind
    simpa using List.find?_some hkind
  -- Of two beginnings of one text one is a beginning of the other.
  rw [hkind]
  rcases List.prefix_or_prefix_of_prefix hother hlead with h | h
  · rw [EventKind.lead_prefix_free h]
  · rw [EventKind.lead_prefix_free h]

/-- A record is read back: it tells the kind and the reason of its event if that
    is quoted, and nothing of the sort otherwise. -/
theorem told?_ofNotice (n : Notice) :
    told? (ofNotice n).text
      = if n.kind.quotes = true then some (n.kind, n.reason.getD "") else none := by
  rw [told?, kind?_ofNotice]
  by_cases hq : n.kind.quotes = true
  · have hrest : (ofNotice n).text.toList.drop n.kind.lead.toList.length
        = Text.quote (n.reason.getD "").toList := by
      rw [text_of_quotes hq, String.toList_append, List.drop_left, Text.quoted,
        String.toList_ofList]
    simp [hq, hrest, Text.unquote?_quote]
  · simp [hq]

/-- Records with a quoted reason are alike only for the same kind and reason. -/
theorem text_eq_iff {m n : Notice} (hm : m.kind.quotes = true) :
    (ofNotice m).text = (ofNotice n).text ↔
      m.kind = n.kind ∧ m.reason.getD "" = n.reason.getD "" := by
  constructor
  · intro h
    have htold := told?_ofNotice m
    rw [if_pos hm, h, told?_ofNotice n] at htold
    split at htold
    next => exact ⟨congrArg Prod.fst (Option.some.inj htold).symm,
      congrArg Prod.snd (Option.some.inj htold).symm⟩
    next => exact absurd htold.symm (Option.some_ne_none _)
  · rintro ⟨hkind, hreason⟩
    rw [text_of_quotes hm, text_of_quotes (hkind ▸ hm), hkind, hreason]

/-- Nothing is hidden in a record with a quoted reason. -/
theorem visible_of_quotes {n : Notice} (h : n.kind.quotes = true) :
    ∀ c ∈ (ofNotice n).text.toList, Text.isHidden c = false := by
  rw [text_of_quotes h, String.toList_append, Text.quoted, String.toList_ofList]
  refine List.forall_mem_append.mpr ⟨fun c hc => ?_, Text.visible_quote _⟩
  exact Text.isHidden_of_isPrintable (EventKind.isPrintable_lead n.kind c hc)

/-- All controls are hidden. -/
theorem isControl_of_quotes {n : Notice} (h : n.kind.quotes = true) :
    ∀ c ∈ (ofNotice n).text.toList, Text.isControl c = false := by
  intro c hc
  refine Bool.eq_false_iff.mpr fun hcontrol => ?_
  have hvisible := visible_of_quotes h c hc
  rw [Text.isHidden_of_isControl hcontrol] at hvisible
  exact Bool.false_ne_true hvisible.symm

/-- A line is shown without the blanks at its end. -/
theorem trimmed_shownLine (line : String) : Text.Trimmed line (shownLine line) := by
  rw [shownLine]
  refine ⟨⟨(line.toList.reverse.takeWhile Text.isBlank).reverse, ?_, ?_⟩, ?_⟩
  · rw [String.toList_ofList]
    exact Text.trimEnd_append_blanks line.toList
  · exact fun c hc => List.all_eq_true.mp List.all_takeWhile c (List.mem_reverse.mp hc)
  · rw [String.toList_ofList]
    exact fun c hc => Text.getLast?_trimEnd hc

/-- A forwarded line is one record. -/
theorem newline_not_mem_line {line : String} (h : IsLine line) :
    '\n' ∉ (ofNotice (LogStream.lineNotice line)).text.toList := by
  rcases h with ⟨body, hbody, hline⟩
  -- The newline of the line is a blank at its end.
  have hshown : (shownLine line).toList = Text.trimEnd body := by
    rw [shownLine, String.toList_ofList]
    rcases hline with hline | hline
    · rw [hline]
    · rw [hline, Text.trimEnd_concat (by decide)]
  have htext : (ofNotice (LogStream.lineNotice line)).text
      = EventKind.compileOutput.lead ++ shownLine line := rfl
  rw [htext, String.toList_append, List.mem_append, hshown, not_or]
  refine ⟨by decide, fun hmem => ?_⟩
  exact hbody ((Text.trimEnd_prefix body).subset hmem)

/-- Records as they stand in a log, one under the other. -/
def page (ns : List Notice) : List Char :=
  ['\n'].intercalate (ns.map fun n => (ofNotice n).text.toList)

/-- In a log of forwarded lines and of records with quoted reasons each line is
    the record of one event. -/
theorem splitOn_page {ns : List Notice} (hne : ns ≠ [])
    (h : ∀ n ∈ ns, n.kind.quotes = true ∨ ∃ line, n = LogStream.lineNotice line ∧ IsLine line) :
    (page ns).splitOn '\n' = ns.map fun n => (ofNotice n).text.toList := by
  refine List.splitOn_intercalate '\n' (fun record hrecord => ?_) (mt List.map_eq_nil_iff.mp hne)
  rcases List.mem_map.mp hrecord with ⟨n, hn, rfl⟩
  rcases h n hn with hquotes | ⟨line, rfl, hline⟩
  · intro hmem
    exact absurd (isControl_of_quotes hquotes '\n' hmem) (by decide)
  · exact newline_not_mem_line hline

/-- Records cannot be forged by what they show. A record with a quoted reason has
    no control character, the quotation is read back as the reason, and the
    record is like another only for the same kind and reason; and of any record
    at all it can be told whether it is of this sort. A line that is forwarded
    has one record, which shows it without the blanks at its end. -/
theorem records_unforged :
    (∀ n : Notice, n.kind.quotes = true →
      (∀ c ∈ (ofNotice n).text.toList, Text.isControl c = false) ∧
      (∃ quotation, (ofNotice n).text = n.kind.lead ++ quotation ∧
        Text.unquote? quotation.toList = some (n.reason.getD "").toList) ∧
      ∀ m : Notice, (ofNotice n).text = (ofNotice m).text ↔
        n.kind = m.kind ∧ n.reason.getD "" = m.reason.getD "") ∧
    (∀ n : Notice, told? (ofNotice n).text
      = if n.kind.quotes = true then some (n.kind, n.reason.getD "") else none) ∧
    ∀ (source : List UInt8) (traffic : List Traffic) (n : Notice),
      n ∈ (Outlet.start source).published traffic → n.kind = .compileOutput →
      ∃ line shown, n.line = some line ∧ (ofNotice n).text = "[compile-output] " ++ shown ∧
        Text.Trimmed line shown ∧ '\n' ∉ (ofNotice n).text.toList := by
  refine ⟨fun n hn => ⟨isControl_of_quotes hn, ?_, fun m => text_eq_iff hn⟩, told?_ofNotice, ?_⟩
  · refine ⟨Text.quoted (n.reason.getD ""), text_of_quotes hn, ?_⟩
    rw [Text.quoted, String.toList_ofList]
    exact Text.unquote?_quote _
  · intro source traffic n hn hk
    rcases Outlet.isLine_of_published (Outlet.sound_start source) hn hk with ⟨line, rfl, hline⟩
    exact ⟨line, shownLine line, rfl, rfl, trimmed_shownLine line, newline_not_mem_line hline⟩

theorem records_unforged_break :
    let lost : Notice := { kind := .runtimeLost, reason := some "gone\"\n[runtime-stopped]" }
    let traffic : List Traffic := [111, 107, 32, 10].map fun b => .input (.byte b)
    let line := LogStream.lineNotice "ok \n"
    lost.kind.quotes = true ∧ line ∈ (Outlet.start []).published traffic ∧
      line.kind = .compileOutput ∧
      (∀ c ∈ (ofNotice lost).text.toList, Text.isControl c = false) ∧
      told? (ofNotice lost).text = some (.runtimeLost, "gone\"\n[runtime-stopped]") ∧
      (ofNotice lost).text ≠ (ofNotice { kind := .runtimeLost }).text ∧
      '\n' ∉ (ofNotice line).text.toList := by
  intro lost traffic line
  rcases records_unforged with ⟨hquoted, htold, hforwarded⟩
  have hline : line ∈ (Outlet.start []).published traffic := by decide +kernel
  rcases hquoted lost rfl with ⟨hcontrol, _, hother⟩
  rcases hforwarded [] traffic line hline rfl with ⟨_, _, _, _, _, hnewline⟩
  refine ⟨rfl, hline, rfl, hcontrol, htold lost, fun h => ?_, hnewline⟩
  exact absurd ((hother _).mp h).2 (by decide)

end LogRecord

end SoftPlc
