import SoftPlc.Control.Reply

/-!
# A reply in its buffer

A reply is put together in a buffer of fixed size. A read writes behind the
bytes that are there already, the newest of them is looked at, and in the end
the buffer is cut to what was received. `Buffer.fill` does this with every
index checked, and gives nothing at all if one is out of range. The client's
loop keeps the bytes in a list instead, newest first, and has no indices.

When reading is over can be said without a loop. After some number of reads
the limit is reached, or the last of them ended in a newline, or the next one
brings nothing: that is `IsOver`, and the client stops after the least such
number. Each read before brought something, so there are not more of them than
the limit has bytes.

All of this is about the same sequence of reads, of which a read that fills
the buffer is the delicate one: it is cut, so that it may end in a newline
while what was taken of it does not, or the other way round. Then there is no
room left, and it makes no difference. `Reading` is that sequence, one
constructor for each way to go on or to stop; the two loops and `IsOver` are
compared with it and not with each other.

## Main definitions

* `Client.Buffer.fill`: The loop on a buffer, with every index checked.
* `Client.IsOver`: There is nothing to read any more.
* `Client.Reading`: What is read before reading stops, and in how many reads.

## Theorems

* `Client.Reading.collect`, `Client.Reading.fill`: Both loops read like this.
* `Client.Reading.isOver`, `Client.Reading.not_isOver`: Reading stops as soon
  as it is over.
* `Client.readReply_error_iff`: When there is no reply.
* `Client.readReply_first_stop`: What the reply is.
-/

namespace SoftPlc

/-- The bytes that a read brings. -/
def ReadOutcome.bytes : ReadOutcome → List UInt8
  | data bytes => bytes
  | _ => []

namespace Client

/-- A buffer for a reply: its cells, how many of them hold bytes of the reply,
    and in how many reads these came. -/
structure Buffer where
  cells : List UInt8
  filled : Nat
  reads : Nat
  deriving DecidableEq, Repr

namespace Buffer

/-- A buffer of some size before the first read. -/
def empty (size : Nat) : Buffer :=
  ⟨List.replicate size 0, 0, 0⟩

/-- Puts the bytes of a read behind those that are there, if they fit. -/
def store? (buffer : Buffer) (bytes : List UInt8) : Option Buffer :=
  if buffer.filled + bytes.length ≤ buffer.cells.length then
    some
      { cells := buffer.cells.take buffer.filled ++ bytes ++
          buffer.cells.drop (buffer.filled + bytes.length)
        filled := buffer.filled + bytes.length
        reads := buffer.reads + 1 }
  else none

/-- The cell before the first one that is not in use, if there is one. -/
def newest? (buffer : Buffer) : Option UInt8 :=
  if buffer.filled = 0 then none else buffer.cells[buffer.filled - 1]?

/-- What is left of the buffer when it is cut to what was received. -/
def contents (buffer : Buffer) : List UInt8 :=
  buffer.cells.take buffer.filled

/-- Reads into the buffer until something stops it; nothing if an index is out
    of range. -/
def fill (buffer : Buffer) (reads : List ReadOutcome) : Option (Buffer × Stop) :=
  if buffer.filled < buffer.cells.length then
    match reads with
    | [] => some (buffer, .timedOut)
    | .closed :: _ => some (buffer, .complete)
    | .failed reason :: _ => some (buffer, .failed reason)
    | .timedOut :: _ => some (buffer, .timedOut)
    | .data bytes :: rest =>
      -- A read never returns more than there is room for.
      let taken := bytes.take (buffer.cells.length - buffer.filled)
      if taken = [] then some (buffer, .complete)
      else
        (buffer.store? taken).bind fun buffer =>
          buffer.newest?.bind fun last =>
            if last = newline then some (buffer, .complete) else buffer.fill rest
  else some (buffer, .complete)

/-- The buffer holds what was received, newest first. -/
structure Holds (buffer : Buffer) (size : Nat) (received : Received) : Prop where
  cells : buffer.cells.length = size
  contents : buffer.contents = received.reverse
  filled : buffer.filled = received.length
  fits : received.length ≤ size

theorem holds_empty (size : Nat) : (empty size).Holds size [] where
  cells := List.length_replicate
  contents := rfl
  filled := rfl
  fits := Nat.zero_le size

theorem Holds.filled_lt {buffer : Buffer} {size : Nat} {received : Received}
    (h : buffer.Holds size received) (hroom : size - received.length ≠ 0) :
    buffer.filled < buffer.cells.length := by
  rw [h.cells, h.filled]
  omega

/-- Bytes for which there is room are stored behind the others. -/
theorem Holds.store {buffer : Buffer} {size : Nat} {received : Received}
    (h : buffer.Holds size received) {bytes : List UInt8}
    (hroom : bytes.length ≤ size - received.length) :
    ∃ next, buffer.store? bytes = some next ∧ next.Holds size (bytes.reverse ++ received) ∧
      next.reads = buffer.reads + 1 := by
  have hfits := h.fits
  have hin : buffer.filled + bytes.length ≤ buffer.cells.length := by
    rw [h.cells, h.filled]
    omega
  have hstart : (buffer.cells.take buffer.filled ++ bytes).length
      = buffer.filled + bytes.length := by
    rw [List.length_append, List.length_take_of_le (Nat.le_of_add_right_le hin)]
  refine ⟨_, if_pos hin, ⟨?_, ?_, ?_, ?_⟩, rfl⟩
  · rw [List.length_append, hstart, List.length_drop, Nat.add_sub_of_le hin, h.cells]
  · have hcontents : buffer.cells.take buffer.filled = received.reverse := h.contents
    rw [Buffer.contents]
    dsimp only
    rw [List.take_left' hstart, hcontents, List.reverse_append, List.reverse_reverse]
  · rw [List.length_append, List.length_reverse, Nat.add_comm, ← h.filled]
  · rw [List.length_append, List.length_reverse]
    omega

/-- The newest byte is found where it was stored last. -/
theorem Holds.newest {buffer : Buffer} {size : Nat} {last : UInt8} {received : Received}
    (h : buffer.Holds size (last :: received)) : buffer.newest? = some last := by
  have hfilled : buffer.filled = received.length + 1 := h.filled
  have hcontents : buffer.cells.take (received.length + 1) = received.reverse ++ [last] := by
    rw [← hfilled, ← List.reverse_cons]
    exact h.contents
  rw [newest?, hfilled, if_neg (Nat.succ_ne_zero _), Nat.add_sub_cancel,
    ← List.getElem?_take_of_lt (Nat.lt_succ_self received.length), hcontents,
    ← List.length_reverse]
  exact List.getElem?_concat_length

end Buffer

/-- The bytes that the first reads bring. -/
def brought (reads : List ReadOutcome) (count : Nat) : List UInt8 :=
  (reads.take count).flatMap ReadOutcome.bytes

/-- After this many reads there is nothing to read any more. -/
inductive IsOver (room : Nat) (reads : List ReadOutcome) (count : Nat) : Prop where
  /-- There is no room left. -/
  | full (h : room ≤ (brought reads count).length)
  /-- The last read ended in a newline. -/
  | line (last : ReadOutcome) (h : (reads.take count).getLast? = some last)
      (hlast : last.bytes.getLast? = some newline)
  /-- The engine has closed, or the next read fails or runs out of time. -/
  | nothing (h : ∀ next, reads[count]? = some next → next.bytes = [])

/-- Why reading stops at a read that brings nothing. -/
def stopAt : ReadOutcome → Stop
  | .failed reason => .failed reason
  | .timedOut => .timedOut
  | _ => .complete

/-- While there is room, the reads bring these bytes before reading stops, in
    this many reads. -/
inductive Reading : Nat → List ReadOutcome → List UInt8 → Stop → Nat → Prop where
  | full (reads) : Reading 0 reads [] .complete 0
  | silence {room} (hroom : room ≠ 0) : Reading room [] [] .timedOut 0
  | nothing {room next} (hroom : room ≠ 0) (hnext : next.bytes = []) (rest) :
      Reading room (next :: rest) [] (stopAt next) 0
  | line {room bytes before} (hroom : room ≠ 0) (htaken : bytes.take room = before ++ [newline])
      (rest) : Reading room (.data bytes :: rest) (before ++ [newline]) .complete 1
  | more {room bytes before last rest read stop count} (hroom : room ≠ 0)
      (htaken : bytes.take room = before ++ [last]) (hlast : last ≠ newline)
      (hrest : Reading (room - (before ++ [last]).length) rest read stop count) :
      Reading room (.data bytes :: rest) ((before ++ [last]) ++ read) stop (count + 1)

variable {room count : Nat} {reads : List ReadOutcome} {read : List UInt8} {stop : Stop}

/-- Reading stops somehow. -/
theorem exists_reading (room : Nat) (reads : List ReadOutcome) :
    ∃ read stop count, Reading room reads read stop count := by
  induction reads generalizing room with
  | nil =>
      by_cases hroom : room = 0
      · exact ⟨[], .complete, 0, hroom ▸ .full []⟩
      · exact ⟨[], .timedOut, 0, .silence hroom⟩
  | cons outcome rest ih =>
      by_cases hroom : room = 0
      · exact ⟨[], .complete, 0, hroom ▸ .full _⟩
      · by_cases hbytes : outcome.bytes = []
        · exact ⟨[], stopAt outcome, 0, .nothing hroom hbytes rest⟩
        · cases outcome with
          | closed => exact absurd rfl hbytes
          | failed reason => exact absurd rfl hbytes
          | timedOut => exact absurd rfl hbytes
          | data bytes =>
              rcases List.eq_nil_or_concat (bytes.take room) with htaken | ⟨before, last, htaken⟩
              · rcases List.take_eq_nil_iff.mp htaken with h | h
                · exact absurd h hroom
                · exact absurd h hbytes
              · rw [List.concat_eq_append] at htaken
                by_cases hlast : last = newline
                · exact ⟨_, .complete, 1, .line hroom (hlast ▸ htaken) rest⟩
                · rcases ih (room - (before ++ [last]).length) with ⟨read, stop, count, hrest⟩
                  exact ⟨_, stop, count + 1, .more hroom htaken hlast hrest⟩

/-- The client reads just this. -/
theorem Reading.collect (h : Reading room reads read stop count) (received : Received) :
    collect room received reads = (read.reverse ++ received, stop) := by
  induction h generalizing received with
  | full reads => cases reads <;> rfl
  | silence hroom =>
      rw [Client.collect, if_neg hroom]
      rfl
  | @nothing room next hroom hnext rest =>
      rw [Client.collect.eq_def]
      dsimp only
      rw [if_neg hroom]
      cases next with
      | data bytes =>
          have hbytes : bytes = [] := hnext
          dsimp only
          rw [hbytes, List.take_nil]
          rfl
      | closed => rfl
      | failed reason => rfl
      | timedOut => rfl
  | line hroom htaken rest =>
      rw [Client.collect, if_neg hroom]
      dsimp only
      rw [htaken, List.reverse_concat]
      dsimp only
      rw [if_pos rfl]
      rfl
  | more hroom htaken hlast hrest ih =>
      rw [Client.collect, if_neg hroom]
      dsimp only
      rw [htaken, List.reverse_concat]
      dsimp only
      rw [if_neg hlast, ih, List.reverse_append, List.reverse_concat, List.append_assoc]
      rfl

/-- The buffer takes a reading in, and every index is in range. -/
theorem Reading.fill (h : Reading room reads read stop count) {buffer : Buffer} {size : Nat}
    {received : Received} (hbuffer : buffer.Holds size received)
    (hroom : room = size - received.length) :
    ∃ last, buffer.fill reads = some (last, stop) ∧ last.Holds size (read.reverse ++ received) ∧
      last.reads = buffer.reads + count := by
  -- The induction is on the reading, which has a case for each way in which it ends;
  -- the room is what the buffer has left.
  induction h generalizing buffer received with
  | full reads =>
      have hfull : ¬ buffer.filled < buffer.cells.length := by
        rw [hbuffer.cells, hbuffer.filled]
        omega
      refine ⟨buffer, ?_, hbuffer, rfl⟩
      rw [Buffer.fill.eq_def, if_neg hfull]
  | silence hne =>
      refine ⟨buffer, ?_, hbuffer, rfl⟩
      rw [Buffer.fill.eq_def, if_pos (hbuffer.filled_lt (hroom ▸ hne))]
  | @nothing room next hne hnext rest =>
      refine ⟨buffer, ?_, hbuffer, rfl⟩
      rw [Buffer.fill.eq_def, if_pos (hbuffer.filled_lt (hroom ▸ hne))]
      cases next with
      | data bytes =>
          have hbytes : bytes = [] := hnext
          dsimp only
          rw [hbytes, List.take_nil, if_pos rfl]
          rfl
      | closed => rfl
      | failed reason => rfl
      | timedOut => rfl
  | @line room bytes before hne htaken rest =>
      have hlength : (before ++ [newline]).length ≤ size - received.length := by
        rw [← htaken, ← hroom]
        exact List.length_take_le room bytes
      rcases hbuffer.store hlength with ⟨last, hstore, hlast, hreads⟩
      refine ⟨last, ?_, hlast, hreads⟩
      rw [List.reverse_concat] at hlast
      rw [Buffer.fill.eq_def, if_pos (hbuffer.filled_lt (hroom ▸ hne))]
      dsimp only
      rw [hbuffer.cells, hbuffer.filled, ← hroom, htaken,
        if_neg (List.append_ne_nil_of_right_ne_nil _ (List.cons_ne_nil _ _)), hstore,
        Option.bind_some, hlast.newest, Option.bind_some, if_pos rfl]
  | @more room bytes before final rest read stop count hne htaken hfinal hrest ih =>
      have hlength : (before ++ [final]).length ≤ size - received.length := by
        rw [← htaken, ← hroom]
        exact List.length_take_le room bytes
      rcases hbuffer.store hlength with ⟨next, hstore, hnext, hreads⟩
      have hleft : room - (before ++ [final]).length
          = size - ((before ++ [final]).reverse ++ received).length := by
        have hlonger : ((before ++ [final]).reverse ++ received).length
            = (before ++ [final]).length + received.length := by
          rw [List.length_append, List.length_reverse]
        omega
      rcases ih hnext hleft with ⟨last, hfill, hlast, hcount⟩
      rw [List.reverse_concat] at hnext
      refine ⟨last, ?_, ?_, ?_⟩
      · rw [Buffer.fill.eq_def, if_pos (hbuffer.filled_lt (hroom ▸ hne))]
        dsimp only
        rw [hbuffer.cells, hbuffer.filled, ← hroom, htaken,
          if_neg (List.append_ne_nil_of_right_ne_nil _ (List.cons_ne_nil _ _)), hstore,
          Option.bind_some, hnext.newest, Option.bind_some, if_neg hfinal, hfill]
      · rw [List.reverse_append, List.append_assoc]
        exact hlast
      · rw [hcount, hreads, Nat.add_assoc, Nat.add_comm 1]

theorem brought_zero (reads : List ReadOutcome) : brought reads 0 = [] :=
  rfl

theorem brought_cons (bytes : List UInt8) (rest : List ReadOutcome) (count : Nat) :
    brought (.data bytes :: rest) (count + 1) = bytes ++ brought rest count :=
  rfl

/-- Nothing is over as long as something comes for which there is room. -/
theorem not_isOver_zero {bytes : List UInt8} {rest : List ReadOutcome} (hroom : room ≠ 0)
    (hbytes : bytes ≠ []) : ¬ IsOver room (.data bytes :: rest) 0 := by
  rintro (hfull | ⟨last, hlast, -⟩ | hnothing)
  · exact hroom (Nat.le_zero.mp hfull)
  · exact absurd hlast (by simp only [List.take_zero, List.getLast?_nil, reduceCtorEq,
      not_false_eq_true])
  · exact hbytes (hnothing _ rfl)

/-- A read that does not end in a newline leaves the rest to the reads behind it. -/
theorem isOver_cons_iff {bytes : List UInt8} {rest : List ReadOutcome}
    (hlast : bytes.getLast? ≠ some newline) :
    IsOver room (.data bytes :: rest) (count + 1) ↔ IsOver (room - bytes.length) rest count := by
  have hlength : room ≤ (brought (.data bytes :: rest) (count + 1)).length ↔
      room - bytes.length ≤ (brought rest count).length := by
    rw [brought_cons, List.length_append]
    omega
  have htake : (ReadOutcome.data bytes :: rest).take (count + 1)
      = .data bytes :: rest.take count := List.take_succ_cons
  constructor
  · rintro (hfull | ⟨last, hline, hnewline⟩ | hnothing)
    · exact .full (hlength.mp hfull)
    · rw [htake, List.getLast?_cons] at hline
      cases hrest : (rest.take count).getLast? with
      | none =>
          rw [hrest] at hline
          rw [← Option.some.inj hline] at hnewline
          exact absurd hnewline hlast
      | some final =>
          rw [hrest] at hline
          exact .line last (hrest.trans hline) hnewline
    · exact .nothing hnothing
  · rintro (hfull | ⟨last, hline, hnewline⟩ | hnothing)
    · exact .full (hlength.mpr hfull)
    · refine .line last ?_ hnewline
      rw [htake, List.getLast?_cons, hline]
      rfl
    · exact .nothing hnothing

/-- A read for which there was room brought what was taken of it. -/
theorem getLast?_ne_newline {bytes before : List UInt8} {last : UInt8}
    (htaken : bytes.take room = before ++ [last]) (hlast : last ≠ newline)
    (hfits : bytes.length ≤ room) : bytes.getLast? ≠ some newline := by
  rw [List.take_of_length_le hfits] at htaken
  rw [htaken, List.getLast?_concat]
  exact fun h => hlast (Option.some.inj h)

/-- Where a reading stops there is nothing to read any more. -/
theorem Reading.isOver (h : Reading room reads read stop count) : IsOver room reads count := by
  induction h with
  | full reads => exact .full (Nat.zero_le _)
  | silence hroom => exact .nothing fun next h => absurd h (by simp)
  | nothing hroom hnext rest =>
      refine .nothing fun next h => ?_
      rw [← Option.some.inj h]
      exact hnext
  | @line room bytes before hroom htaken rest =>
      by_cases hfits : bytes.length ≤ room
      · rw [List.take_of_length_le hfits] at htaken
        rw [htaken]
        exact .line _ rfl List.getLast?_concat
      · refine .full ?_
        rw [brought_cons, List.length_append]
        omega
  | @more room bytes before last rest read stop count hroom htaken hlast hrest ih =>
      by_cases hfits : bytes.length ≤ room
      · rw [isOver_cons_iff (getLast?_ne_newline htaken hlast hfits)]
        rwa [← htaken, List.take_of_length_le hfits] at ih
      · refine .full ?_
        rw [brought_cons, List.length_append]
        omega

theorem ne_nil_of_take {bytes before : List UInt8} {last : UInt8}
    (h : bytes.take room = before ++ [last]) : bytes ≠ [] := by
  rintro rfl
  rw [List.take_nil] at h
  exact List.append_ne_nil_of_right_ne_nil _ (List.cons_ne_nil _ _) h.symm

/-- Without any room nothing is read. -/
theorem Reading.count_eq_zero (h : Reading 0 reads read stop count) : count = 0 := by
  cases h with
  | full => rfl
  | silence hroom => rfl
  | nothing hroom => rfl
  | line hroom => exact absurd rfl hroom
  | more hroom => exact absurd rfl hroom

/-- Before, there was something to read. -/
theorem Reading.not_isOver (h : Reading room reads read stop count) {earlier : Nat}
    (hearlier : earlier < count) : ¬ IsOver room reads earlier := by
  induction h generalizing earlier with
  | full reads => exact absurd hearlier (Nat.not_lt_zero _)
  | silence hroom => exact absurd hearlier (Nat.not_lt_zero _)
  | nothing hroom hnext rest => exact absurd hearlier (Nat.not_lt_zero _)
  | line hroom htaken rest =>
      rw [Nat.lt_one_iff.mp hearlier]
      exact not_isOver_zero hroom (ne_nil_of_take htaken)
  | @more room bytes before last rest read stop count hroom htaken hlast hrest ih =>
      cases earlier with
      | zero => exact not_isOver_zero hroom (ne_nil_of_take htaken)
      | succ earlier =>
          by_cases hfits : bytes.length ≤ room
          · rw [isOver_cons_iff (getLast?_ne_newline htaken hlast hfits)]
            have hnot := ih (Nat.lt_of_succ_lt_succ hearlier)
            rwa [← htaken, List.take_of_length_le hfits] at hnot
          · -- The read has filled the room, so it was the last one.
            have hnone : room - (before ++ [last]).length = 0 := by
              rw [← htaken, List.length_take]
              omega
            have hlast := (hnone ▸ hrest).count_eq_zero
            exact absurd (Nat.lt_of_succ_lt_succ hearlier) (hlast ▸ Nat.not_lt_zero earlier)

/-- What is read is what the reads bring, as far as there is room. -/
theorem Reading.read_eq (h : Reading room reads read stop count) :
    read = (brought reads count).take room := by
  induction h with
  | full reads => rfl
  | silence hroom => rw [brought_zero, List.take_nil]
  | nothing hroom hnext rest => rw [brought_zero, List.take_nil]
  | line hroom htaken rest =>
      rw [brought_cons, brought_zero, List.append_nil, htaken]
  | @more room bytes before last rest read stop count hroom htaken hlast hrest ih =>
      have hleft : room - (before ++ [last]).length = room - bytes.length := by
        rw [← htaken, List.length_take]
        omega
      rw [brought_cons, List.take_append, htaken, ← hleft, ← ih]

/-- As long as nothing is over, each read brings a byte at least. -/
theorem le_length_brought (h : ∀ earlier, earlier < count → ¬ IsOver room reads earlier) :
    count ≤ (brought reads count).length := by
  induction count with
  | zero => exact Nat.zero_le _
  | succ count ih =>
      have hbefore := ih fun earlier hearlier => h earlier (Nat.lt_succ_of_lt hearlier)
      have hsome : ∃ next, reads[count]? = some next ∧ next.bytes ≠ [] := by
        refine Classical.byContradiction fun hnone => ?_
        refine h count (Nat.lt_succ_self count) (.nothing fun next hnext => ?_)
        exact Classical.byContradiction fun hbytes => hnone ⟨next, hnext, hbytes⟩
      rcases hsome with ⟨next, hnext, hbytes⟩
      have hadd : brought reads (count + 1) = brought reads count ++ next.bytes := by
        rw [brought, List.take_add_one, hnext, List.flatMap_append]
        simp only [Option.toList_some, List.flatMap_singleton]
        rfl
      have hone := List.length_pos_iff.mpr hbytes
      rw [hadd, List.length_append]
      omega

/-- The client makes at most as many reads that bring something as there is
    room for bytes. -/
theorem Reading.count_le (h : Reading room reads read stop count) : count ≤ room := by
  cases count with
  | zero => exact Nat.zero_le room
  | succ count =>
      have hnot : ¬ IsOver room reads count := h.not_isOver (Nat.lt_succ_self count)
      have hroom : (brought reads count).length < room :=
        Nat.lt_of_not_le fun hfull => hnot (.full hfull)
      have hbytes : count ≤ (brought reads count).length :=
        le_length_brought fun earlier hearlier => h.not_isOver (Nat.lt_succ_of_lt hearlier)
      omega

/-- What the first reads bring is the beginning of what all of them bring. -/
theorem isPrefix_brought (reads : List ReadOutcome) (count : Nat) :
    brought reads count <+: reads.flatMap ReadOutcome.bytes := by
  refine ⟨(reads.drop count).flatMap ReadOutcome.bytes, ?_⟩
  rw [brought, ← List.flatMap_append, List.take_append_drop]

/-- What the client returns when it has read these bytes and then stopped. -/
def finish (client : Client) (read : List UInt8) (stop : Stop) : Except ControlError String :=
  match read, stop with
  | [], .failed reason => .error (.unreachable client.address reason.text)
  | [], .timedOut => .error (.timedOut client.address client.ioTimeout)
  | read, _ => .ok (String.ofList (Text.Utf8.lossy read))

theorem finish_of_ne_nil (client : Client) (h : read ≠ []) (stop : Stop) :
    client.finish read stop = .ok (String.ofList (Text.Utf8.lossy read)) := by
  cases read with
  | nil => exact absurd rfl h
  | cons b bytes => rfl

/-- A reply is the text of what was read. -/
theorem eq_of_finish_ok {client : Client} {reply : String}
    (h : client.finish read stop = .ok reply) : reply = String.ofList (Text.Utf8.lossy read) := by
  cases read with
  | cons b bytes => exact (Except.ok.inj h).symm
  | nil =>
      cases stop with
      | complete => exact (Except.ok.inj h).symm
      | failed reason => exact absurd h (by simp only [finish, reduceCtorEq, not_false_eq_true])
      | timedOut => exact absurd h (by simp only [finish, reduceCtorEq, not_false_eq_true])

/-- What the client returns depends on what it has read, and why it stopped. -/
theorem Reading.readReply {client : Client} {limit : Nat}
    (h : Reading (max limit 1) reads read stop count) :
    client.readReply limit reads = client.finish read stop := by
  rw [Client.readReply, h.collect]
  dsimp only
  rw [List.append_nil, List.reverse_reverse]
  cases read with
  | nil => cases stop <;> rfl
  | cons b bytes =>
      rw [if_neg (by simp)]
      rfl

/-- There is no reply exactly if the first thing that happens is a failure or a
    silence. -/
theorem readReply_error_iff (client : Client) (limit : Nat) (reads : List ReadOutcome)
    (e : ControlError) :
    client.readReply limit reads = .error e ↔
      (∃ reason, reads.head? = some (.failed reason) ∧
        e = .unreachable client.address reason.text) ∨
      ((reads = [] ∨ reads.head? = some .timedOut) ∧
        e = .timedOut client.address client.ioTimeout) := by
  rcases exists_reading (max limit 1) reads with ⟨read, stop, count, h⟩
  have hroom : max limit 1 ≠ 0 :=
    Nat.ne_of_gt (Nat.lt_of_lt_of_le Nat.zero_lt_one (Nat.le_max_right limit 1))
  rw [h.readReply]
  generalize max limit 1 = room at h hroom
  cases h with
  | full => exact absurd rfl hroom
  | silence => simp [finish, @eq_comm _ e]
  | @nothing _ next _ hnext rest =>
      cases next with
      | closed => simp [finish, stopAt]
      | failed reason => simp [finish, stopAt, @eq_comm _ e]
      | timedOut => simp [finish, stopAt, @eq_comm _ e]
      | data bytes => simp [finish, stopAt]
  | line => simp [finish_of_ne_nil]
  | more => simp [finish_of_ne_nil]

/-- The client reads until the first of four things: the limit is reached, a
    read ends in a newline, the engine closes, or a read fails or runs out of
    time. It has then stored, with every index of its buffer in range, the
    beginning of what was sent, and not more than the limit, in not more reads
    than the limit has bytes. The text of these bytes is its reply, unless a
    failure or a silence was all there was. -/
theorem readReply_first_stop (client : Client) (limit : Nat) (reads : List ReadOutcome) :
    ∃ buffer stop,
      (Buffer.empty (max limit 1)).fill reads = some (buffer, stop) ∧
      client.readReply limit reads = client.finish buffer.contents stop ∧
      IsOver (max limit 1) reads buffer.reads ∧
      (∀ earlier, earlier < buffer.reads → ¬ IsOver (max limit 1) reads earlier) ∧
      buffer.contents = (brought reads buffer.reads).take (max limit 1) ∧
      buffer.contents <+: reads.flatMap ReadOutcome.bytes ∧
      buffer.contents.length ≤ max limit 1 ∧
      buffer.reads ≤ max limit 1 ∧
      (∀ reply, client.readReply limit reads = .ok reply →
        reply = String.ofList (Text.Utf8.lossy buffer.contents)) ∧
      ∀ e, client.readReply limit reads = .error e ↔
        (∃ reason, reads.head? = some (.failed reason) ∧
          e = .unreachable client.address reason.text) ∨
        ((reads = [] ∨ reads.head? = some .timedOut) ∧
          e = .timedOut client.address client.ioTimeout) := by
  rcases exists_reading (max limit 1) reads with ⟨read, stop, count, h⟩
  rcases h.fill (Buffer.holds_empty _) rfl with ⟨buffer, hfill, hholds, hcount⟩
  have hcontents : buffer.contents = read := by
    rw [hholds.contents, List.append_nil, List.reverse_reverse]
  have hreads : buffer.reads = count := hcount.trans (Nat.zero_add count)
  have hprefix : (brought reads count).take (max limit 1) <+: reads.flatMap ReadOutcome.bytes :=
    (List.take_prefix _ _).trans (isPrefix_brought reads count)
  refine ⟨buffer, stop, hfill, ?_⟩
  rw [hcontents, hreads]
  refine ⟨h.readReply, h.isOver, fun _ => h.not_isOver, h.read_eq, h.read_eq ▸ hprefix,
    h.read_eq ▸ List.length_take_le _ _, h.count_le, fun reply hreply => ?_,
    readReply_error_iff client limit reads⟩
  rw [h.readReply] at hreply
  exact eq_of_finish_ok hreply

example : (Buffer.empty 4).fill [.data [48, 49], .data [50, 51, 52, newline], .closed]
    = some (⟨[48, 49, 50, 51], 4, 2⟩, .complete) := by
  decide

end Client

end SoftPlc
