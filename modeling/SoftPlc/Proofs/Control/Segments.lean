import SoftPlc.Proofs.Text.Utf8
import SoftPlc.Supervisor.Turn
import Mathlib.Data.List.Basic

/-!
# Replies that arrive in pieces

A reply is one string of bytes to the engine that sends it. The connection may
hand it to the client in any pieces, and the client ought to return the same
text for all of them: what stands up to the first newline, or up to the limit,
or up to the end, whichever comes first.

The client looks for a newline at the end of each read and nowhere else. So it
returns at least the first line and at most everything within the limit, and
which of the texts in between depends on where the pieces end. One piece gives
everything; two that are cut behind the first newline give the first line.
These differ unless nothing stands behind the first newline within the limit,
and then all agree. `segments_irrelevant_iff` says this for the replies and for
the log that is shown to an operator.

That two strings of bytes differ is not enough, since different bytes may be
shown as the same replacement character. But what stands behind a newline is
decoded on its own, and is shown as one character at least.

## Main definitions

* `Sequel`: What the engine does after its reply.
* `IsCut`: Some pieces are a string of bytes.
* `Client.firstLine`: The bytes up to the first newline.
* `Client.readOf`: The bytes that are read of some pieces.
* `Client.answer`: What the client returns for the bytes it has read.

## Theorems

* `Client.conclude_arriving`: The result depends on the bytes read alone.
* `Client.firstLine_prefix_readOf`, `Client.isPrefix_readOf`: What is read.
* `Client.segments_irrelevant_iff`: When the pieces make no difference.
-/

namespace SoftPlc

/-- What the engine does when it has sent its reply. -/
inductive Sequel where
  | closes
  | keepsSilent
  deriving DecidableEq, Repr

/-- What the client sees of it. -/
def Sequel.outcome : Sequel → ReadOutcome
  | closes => .closed
  | keepsSilent => .timedOut

/-- A connection on which the reply arrives in pieces. -/
def Exchange.arriving (pieces : List (List UInt8)) (sequel : Sequel) : Exchange :=
  ⟨.completed, .completed, pieces.map .data ++ [sequel.outcome]⟩

/-- The pieces make up the bytes, and each brings some. -/
structure IsCut (bytes : List UInt8) (pieces : List (List UInt8)) : Prop where
  flatten : pieces.flatten = bytes
  nonempty : ∀ piece ∈ pieces, piece ≠ []

namespace Client

/-- The bytes up to the first newline and with it, or all if there is none. -/
def firstLine : List UInt8 → List UInt8
  | [] => []
  | b :: rest => if b = newline then [b] else b :: firstLine rest

/-- The bytes of a reply that are within the limit. -/
def within (limit : Nat) (bytes : List UInt8) : List UInt8 :=
  bytes.take (max limit 1)

/-- The bytes that are read of some pieces while there is room. -/
def readOf : Nat → List (List UInt8) → List UInt8
  | _, [] => []
  | room, piece :: rest =>
    let taken := piece.take room
    if taken.getLast? = some newline then taken else taken ++ readOf (room - taken.length) rest

/-- What the client returns when it has read these bytes. -/
def answer (client : Client) (sequel : Sequel) (read : List UInt8) : Except ControlError String :=
  match read, sequel with
  | [], .keepsSilent => .error (.timedOut client.address client.ioTimeout)
  | read, _ => .ok (String.ofList (Text.Utf8.lossy read))

theorem isPrefix_firstLine (bytes : List UInt8) : firstLine bytes <+: bytes := by
  induction bytes with
  | nil => exact List.prefix_rfl
  | cons b rest ih =>
      rw [firstLine]
      split
      next => exact List.prefix_append [b] rest
      next => exact (List.prefix_cons_inj b).mpr ih

theorem firstLine_append_of_mem {bytes : List UInt8} (h : newline ∈ bytes) (more : List UInt8) :
    firstLine (bytes ++ more) = firstLine bytes := by
  induction bytes with
  | nil => exact absurd h List.not_mem_nil
  | cons b rest ih =>
      rw [List.cons_append, firstLine, firstLine]
      by_cases hb : b = newline
      · rw [if_pos hb, if_pos hb]
      · rw [if_neg hb, if_neg hb, ih (List.mem_of_ne_of_mem (Ne.symm hb) h)]

theorem firstLine_append_of_not_mem {bytes : List UInt8} (h : newline ∉ bytes)
    (more : List UInt8) : firstLine (bytes ++ more) = bytes ++ firstLine more := by
  induction bytes with
  | nil => rfl
  | cons b rest ih =>
      have hb : b ≠ newline := fun hb => h (hb ▸ List.mem_cons_self)
      rw [List.cons_append, firstLine, if_neg hb, ih fun hr => h (List.mem_cons_of_mem b hr),
        List.cons_append]

/-- A first line that is not everything ends in a newline. -/
theorem firstLine_eq_concat {bytes : List UInt8} (h : firstLine bytes ≠ bytes) :
    ∃ line more, bytes = line ++ newline :: more ∧ firstLine bytes = line ++ [newline] ∧
      more ≠ [] := by
  induction bytes with
  | nil => exact absurd rfl h
  | cons b rest ih =>
      rw [firstLine] at h ⊢
      by_cases hb : b = newline
      · rw [if_pos hb] at h ⊢
        exact ⟨[], rest, by rw [hb]; rfl, by rw [hb]; rfl, fun hr => h (by rw [hr])⟩
      · rw [if_neg hb] at h ⊢
        rcases ih fun hr => h (by rw [hr]) with ⟨line, more, hrest, hline, hmore⟩
        exact ⟨b :: line, more, by rw [hrest]; rfl, by rw [hline]; rfl, hmore⟩

theorem take_flatten_cons (room : Nat) (piece : List UInt8) (rest : List (List UInt8)) :
    (piece :: rest).flatten.take room
      = piece.take room ++ rest.flatten.take (room - (piece.take room).length) := by
  have hroom : room - (piece.take room).length = room - piece.length := by
    rw [List.length_take]
    omega
  rw [List.flatten_cons, List.take_append, hroom]

/-- No more is read than is within the limit. -/
theorem isPrefix_readOf (room : Nat) (pieces : List (List UInt8)) :
    readOf room pieces <+: pieces.flatten.take room := by
  induction pieces generalizing room with
  | nil => exact List.nil_prefix
  | cons piece rest ih =>
      rw [take_flatten_cons, readOf]
      split
      next => exact List.prefix_append _ _
      next => exact (List.prefix_append_right_inj _).mpr (ih _)

/-- The first line is read, whatever the pieces. -/
theorem firstLine_prefix_readOf (room : Nat) (pieces : List (List UInt8)) :
    firstLine (pieces.flatten.take room) <+: readOf room pieces := by
  induction pieces generalizing room with
  | nil =>
      rw [List.flatten_nil, List.take_nil]
      exact List.nil_prefix
  | cons piece rest ih =>
      rw [take_flatten_cons, readOf]
      by_cases hmem : newline ∈ piece.take room
      · rw [firstLine_append_of_mem hmem]
        refine (isPrefix_firstLine _).trans ?_
        split
        next => exact List.prefix_rfl
        next => exact List.prefix_append _ _
      · have hlast : (piece.take room).getLast? ≠ some newline :=
          fun h => hmem (List.mem_of_getLast? h)
        rw [firstLine_append_of_not_mem hmem, if_neg hlast]
        exact (List.prefix_append_right_inj _).mpr (ih _)

/-- One piece is read as far as there is room. -/
theorem readOf_single (room : Nat) (bytes : List UInt8) :
    readOf room [bytes] = bytes.take room := by
  rw [readOf]
  split
  next => rfl
  next => exact List.append_nil _

/-- Nothing is read behind a piece that ends in a newline. -/
theorem readOf_line {room : Nat} {line : List UInt8} (h : (line ++ [newline]).length ≤ room)
    (rest : List (List UInt8)) : readOf room ((line ++ [newline]) :: rest) = line ++ [newline] := by
  have hlast : (line ++ [newline]).getLast? = some newline := List.getLast?_concat
  rw [readOf]
  rw [List.take_of_length_le h, if_pos hlast]

theorem readOf_ne_nil {room : Nat} {piece : List UInt8} {rest : List (List UInt8)}
    (hroom : 0 < room) (hpiece : piece ≠ []) : readOf room (piece :: rest) ≠ [] := by
  have htaken : piece.take room ≠ [] := by
    rw [ne_eq, List.take_eq_nil_iff]
    rintro (h | h)
    · omega
    · exact hpiece h
  rw [readOf]
  split
  next => exact htaken
  next => exact List.append_ne_nil_of_left_ne_nil htaken _

/-- The reader collects the bytes in reverse order. -/
theorem collect_arriving (room : Nat) (received : Received) {pieces : List (List UInt8)}
    (h : ∀ piece ∈ pieces, piece ≠ []) (sequel : Sequel) :
    (collect room received (pieces.map .data ++ [sequel.outcome])).1
      = (readOf room pieces).reverse ++ received := by
  induction pieces generalizing room received with
  | nil =>
      cases sequel with
      | closes =>
          change (collect room received [.closed]).1 = received
          rw [collect]
          split
          next => rfl
          next => rfl
      | keepsSilent =>
          change (collect room received [.timedOut]).1 = received
          rw [collect]
          split
          next => rfl
          next => rfl
  | cons piece rest ih =>
      have hrest : ∀ room received,
          (collect room received (rest.map .data ++ [sequel.outcome])).1
            = (readOf room rest).reverse ++ received := by
        intro room received
        exact ih room received fun p hp => h p (List.mem_cons_of_mem piece hp)
      rw [List.map_cons, List.cons_append, collect]
      by_cases hroom : room = 0
      · have hread : readOf room (piece :: rest) = [] := by
          have hle := (isPrefix_readOf room (piece :: rest)).length_le
          rw [hroom, List.take_zero, List.length_nil] at hle
          exact List.eq_nil_of_length_eq_zero (hroom ▸ Nat.le_zero.mp hle)
        rw [if_pos hroom, hread]
        rfl
      · rw [if_neg hroom, readOf]
        dsimp only
        -- There is room and the piece is not empty, so a last byte was read.
        rcases hrev : (piece.take room).reverse with _ | ⟨last, before⟩
        · have hnil := List.take_eq_nil_iff.mp (List.reverse_eq_nil_iff.mp hrev)
          exact absurd hnil (not_or.mpr ⟨hroom, h piece List.mem_cons_self⟩)
        · have htaken : piece.take room = before.reverse ++ [last] := by
            rw [← List.reverse_reverse (piece.take room), hrev, List.reverse_cons]
          have hlast : (piece.take room).getLast? = some last := by
            rw [htaken]
            exact List.getLast?_concat
          dsimp only
          rw [hlast]
          by_cases hnl : last = newline
          · rw [if_pos hnl, if_pos (congrArg some hnl), hrev]
            rfl
          · rw [if_neg hnl, if_neg fun hs => hnl (Option.some.inj hs), hrest, List.reverse_append,
              hrev, List.append_assoc]
            rfl

/-- What the client returns depends on the bytes that it has read alone. -/
theorem conclude_arriving (client : Client) (limit : Nat) {pieces : List (List UInt8)}
    (h : ∀ piece ∈ pieces, piece ≠ []) (sequel : Sequel) :
    client.conclude limit (.arriving pieces sequel)
      = client.answer sequel (readOf (max limit 1) pieces) := by
  have hroom : 0 < max limit 1 := Nat.lt_of_lt_of_le Nat.zero_lt_one (Nat.le_max_right limit 1)
  have hread := collect_arriving (max limit 1) [] h sequel
  rw [List.append_nil] at hread
  change client.readReply limit (pieces.map .data ++ [sequel.outcome]) = _
  cases pieces with
  | nil =>
      -- Without any piece the sequel is all there is.
      cases sequel with
      | closes =>
          change client.readReply limit [.closed] = _
          rw [readReply, collect, if_neg (Nat.ne_of_gt hroom)]
          rfl
      | keepsSilent =>
          change client.readReply limit [.timedOut] = _
          rw [readReply, collect, if_neg (Nat.ne_of_gt hroom)]
          rfl
  | cons piece rest =>
      unfold readReply
      generalize collect (max limit 1) [] ((piece :: rest).map .data ++ [sequel.outcome]) = done
        at hread
      rcases done with ⟨received, stop⟩
      dsimp only at hread ⊢
      have hne : readOf (max limit 1) (piece :: rest) ≠ [] :=
        readOf_ne_nil hroom (h piece List.mem_cons_self)
      generalize readOf (max limit 1) (piece :: rest) = read at hread hne
      have hempty : received.isEmpty = false := by
        rw [hread]
        exact Bool.eq_false_iff.mpr fun hn =>
          hne (List.reverse_eq_nil_iff.mp (List.isEmpty_iff.mp hn))
      rw [hempty, if_neg Bool.false_ne_true, hread, List.reverse_reverse]
      cases read with
      | nil => exact absurd rfl hne
      | cons b bytes => rfl

/-- More behind a newline is more to show. -/
theorem answer_line_ne (client : Client) (sequel : Sequel) (line : List UInt8)
    {more : List UInt8} (h : more ≠ []) :
    Supervisor.logsText (client.answer sequel (line ++ newline :: more))
      ≠ Supervisor.logsText (client.answer sequel (line ++ [newline])) := by
  have hok : ∀ rest, client.answer sequel (line ++ newline :: rest)
      = .ok (String.ofList (Text.Utf8.lossy (line ++ newline :: rest))) := by
    intro rest
    cases line <;> rfl
  rw [hok, hok]
  intro heq
  have hlossy := String.ofList_injective heq
  rw [Text.Utf8.lossy_append_ascii line more (by decide)] at hlossy
  exact Text.Utf8.lossy_ne_nil h (List.append_right_eq_self.mp hlossy)

/-- With something behind the first line, two cuts are enough to tell the difference. -/
theorem exists_cuts {limit : Nat} {bytes : List UInt8}
    (h : firstLine (within limit bytes) ≠ within limit bytes) :
    ∃ p q, IsCut bytes p ∧ IsCut bytes q ∧ readOf (max limit 1) p = within limit bytes ∧
      readOf (max limit 1) q = firstLine (within limit bytes) := by
  rcases firstLine_eq_concat h with ⟨line, more, hwhole, hline, hmore⟩
  have hbytes : bytes = (line ++ [newline]) ++ (more ++ bytes.drop (max limit 1)) := by
    rw [List.append_assoc, List.singleton_append, ← List.cons_append, ← List.append_assoc, ← hwhole]
    exact (List.take_append_drop _ _).symm
  have hlength : (line ++ [newline]).length ≤ max limit 1 := by
    have hle : (within limit bytes).length ≤ max limit 1 := List.length_take_le _ _
    rw [hwhole] at hle
    simp only [List.length_append, List.length_cons, List.length_nil] at hle ⊢
    omega
  have hne : bytes ≠ [] := by
    rw [hbytes]
    simp
  refine ⟨[bytes], [line ++ [newline], more ++ bytes.drop (max limit 1)],
    ⟨by simp, by simpa using hne⟩, ⟨?_, ?_⟩, readOf_single _ _, ?_⟩
  · rw [List.flatten_cons, List.flatten_cons, List.flatten_nil, List.append_nil]
    exact hbytes.symm
  · simp [hmore]
  · rw [hline]
    exact readOf_line hlength _

/-- The client reads the first line at least and what is within the limit at
    most. All ways to cut a reply give the same result, or the first line, or
    show the same log, exactly if within the limit nothing stands behind the
    first line. -/
theorem segments_irrelevant_iff (client : Client) (limit : Nat) (bytes : List UInt8)
    (sequel : Sequel) :
    (∀ pieces, IsCut bytes pieces → ∃ read,
      firstLine (within limit bytes) <+: read ∧ read <+: within limit bytes ∧
        client.conclude limit (.arriving pieces sequel) = client.answer sequel read) ∧
    ((∀ p q, IsCut bytes p → IsCut bytes q →
        client.conclude limit (.arriving p sequel) = client.conclude limit (.arriving q sequel)) ↔
      firstLine (within limit bytes) = within limit bytes) ∧
    ((∀ pieces, IsCut bytes pieces → client.conclude limit (.arriving pieces sequel)
        = client.answer sequel (firstLine (within limit bytes))) ↔
      firstLine (within limit bytes) = within limit bytes) ∧
    ((∀ p q, IsCut bytes p → IsCut bytes q →
        Supervisor.logsText (client.conclude limit (.arriving p sequel))
          = Supervisor.logsText (client.conclude limit (.arriving q sequel))) ↔
      firstLine (within limit bytes) = within limit bytes) := by
  have hbetween : ∀ pieces, IsCut bytes pieces → ∃ read,
      firstLine (within limit bytes) <+: read ∧ read <+: within limit bytes ∧
        client.conclude limit (.arriving pieces sequel) = client.answer sequel read := by
    intro pieces hcut
    have hfirst := firstLine_prefix_readOf (max limit 1) pieces
    have hmost := isPrefix_readOf (max limit 1) pieces
    rw [hcut.flatten] at hfirst hmost
    exact ⟨_, hfirst, hmost, conclude_arriving client limit hcut.nonempty sequel⟩
  -- If the first line is everything, there is only one text in between.
  have hsame : firstLine (within limit bytes) = within limit bytes → ∀ pieces,
      IsCut bytes pieces → client.conclude limit (.arriving pieces sequel)
        = client.answer sequel (firstLine (within limit bytes)) := by
    intro hall pieces hcut
    rcases hbetween pieces hcut with ⟨read, hfirst, hmost, hread⟩
    rw [hread, hall]
    rw [hall] at hfirst
    rw [hmost.eq_of_length_le hfirst.length_le]
  have htold : (∀ p q, IsCut bytes p → IsCut bytes q →
      Supervisor.logsText (client.conclude limit (.arriving p sequel))
        = Supervisor.logsText (client.conclude limit (.arriving q sequel))) →
      firstLine (within limit bytes) = within limit bytes := by
    intro hlogs
    by_contra hmore
    -- One way to cut stops at the newline, the other reads on.
    rcases exists_cuts hmore with ⟨p, q, hp, hq, hreadp, hreadq⟩
    have heq := hlogs p q hp hq
    rw [conclude_arriving client limit hp.nonempty, conclude_arriving client limit hq.nonempty,
      hreadp, hreadq] at heq
    rcases firstLine_eq_concat hmore with ⟨line, more, hwhole, hline, hne⟩
    rw [hline, hwhole] at heq
    exact answer_line_ne client sequel line hne heq
  refine ⟨hbetween, ⟨fun h => htold fun p q hp hq => ?_, fun h p q hp hq => ?_⟩,
    ⟨fun h => htold fun p q hp hq => ?_, hsame⟩, ⟨htold, fun h p q hp hq => ?_⟩⟩
  · rw [h p q hp hq]
  · rw [hsame h p hp, hsame h q hq]
  · rw [h p hp, h q hq]
  · rw [hsame h p hp, hsame h q hq]

/-- Two lines in one piece are returned as they are, and cut behind the first
    newline only the first of them is. -/
theorem segments_matter :
    ¬ ∀ (client : Client) (limit : Nat) (bytes : List UInt8) (sequel : Sequel)
        (p q : List (List UInt8)), IsCut bytes p → IsCut bytes q →
      client.conclude limit (.arriving p sequel) = client.conclude limit (.arriving q sequel) := by
  intro h
  -- The reply is two lines, of one letter each.
  have heq := congrArg Supervisor.logsText
    (h default 100 [97, 10, 98, 10] .closes [[97, 10, 98, 10]] [[97, 10], [98, 10]]
      ⟨rfl, by decide⟩ ⟨rfl, by decide⟩)
  exact absurd heq (by decide)

end Client

end SoftPlc
