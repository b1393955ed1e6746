import Mathlib.Algebra.Ring.Nat
import Mathlib.Data.List.Induction
import Mathlib.Data.List.Infix
import SoftPlc.Proofs.Bus.Growth

/-!
# What the receivers of a bus are due

A receiver is a position in the log, and its position is all that is kept of
it. What it has been given so far has to be told from that, and cannot be: a
position that has moved on by three may have seen three events, or one that was
left of three. So a readership notes it beside the bus. For each receiver there
is a reader, with the events that were published since it subscribed and, for
each attempt, what it got and how many of these events there were by then.

A reader's progress is the sum of what it got, an event counting one and a lag
what it tells. Its position is where it joined plus its progress, and that is
the whole invariant (`Readership.Kept`): everything else follows from comparing
the position with the number of events, before the attempt.

## Main definitions

* `BusTurn`: Something that is done to a bus.
* `Receipt`: What a receiver got, and when.
* `Reader`: What is noted of a receiver.
* `Readership`: A bus with its handles and readers.
* `Receipt.Due`: What a reader has to get, given its progress.

## Theorems

* `Receipt.Due.unique`: What is due at a moment is one thing.
* `Receipt.Due.followed`: A lag is told once, and the oldest entry follows.
* `Reader.Served.delivered`: Nothing of what is retained is passed over.
* `Bus.receiveAt_due`: What is given at a position is due there.
* `Bus.drain_eq`: All that a receiver can get now.
* `Readership.KeptFor.drained`: The same of a reader, also if the bus is closed.
* `Readership.kept_after`: Each reader stands where its progress has brought it.
-/

namespace SoftPlc

/-- Something that is done to a bus, through a handle or by a receiver. -/
inductive BusTurn where
  | publish (e : Event)
  | subscribe
  /-- One more handle is made. -/
  | clone
  /-- A handle is dropped, and with the last one publication ends. -/
  | drop
  | unsubscribe (receiver : Nat)
  | receive (receiver : Nat)
  deriving Repr

/-- By how many entries something that a receiver gets takes it on. -/
def Received.advance : Received → Nat
  | event _ => 1
  | lagged n => n
  | _ => 0

/-- What a receiver got, and when. -/
structure Receipt where
  /-- How many events had been published since it subscribed. -/
  published : Nat
  /-- Publication had ended. -/
  ended : Bool
  got : Received
  deriving DecidableEq, Repr

/-- The moment of a receipt, as far as its receiver can tell. -/
def Receipt.moment (x : Receipt) : Nat × Bool :=
  (x.published, x.ended)

/-- By how many entries some receipts take a receiver on. -/
def progress (receipts : List Receipt) : Nat :=
  (receipts.map fun x => x.got.advance).sum

/-- What is noted of a receiver. -/
structure Reader where
  /-- How many entries the log had when it subscribed. -/
  joined : Nat
  /-- It has left. -/
  left : Bool := false
  /-- What was published since it subscribed, until it left. -/
  since : List Event := []
  receipts : List Receipt := []
  deriving DecidableEq, Repr

namespace Reader

/-- An event is published. -/
def hear (e : Event) (reader : Reader) : Reader :=
  if reader.left then reader else { reader with since := reader.since ++ [e] }

/-- It leaves. -/
def leave (reader : Reader) : Reader :=
  { reader with left := true }

/-- It asks for what comes next and gets something. -/
def ask (ended : Bool) (got : Received) (reader : Reader) : Reader :=
  if reader.left then reader
  else { reader with receipts := reader.receipts ++ [⟨reader.since.length, ended, got⟩] }

end Reader

/-- A bus with the handles to it, and what is noted of its receivers. -/
structure Readership where
  bus : Bus
  handles : Nat := 1
  readers : List Reader := []

namespace Readership

/-- A bus that nobody reads yet, with one handle to it. -/
def start (bus : Bus) : Readership :=
  { bus }

/-- Publication has ended, as there is no handle left. -/
def ended (a : Readership) : Bool :=
  a.handles == 0

/-- Something is done to the bus. Without a handle nobody can publish,
    subscribe, or make or drop a handle. -/
def see (a : Readership) : BusTurn → Readership
  | .publish e =>
    if a.ended then a
    else { a with bus := a.bus.publish e, readers := a.readers.map (Reader.hear e) }
  | .subscribe =>
    if a.ended then a
    else { a with bus := a.bus.subscribe.2, readers := a.readers ++ [{ joined := a.bus.log.size }] }
  | .clone => if a.ended then a else { a with handles := a.handles + 1 }
  | .drop =>
    { a with
      handles := a.handles - 1
      bus := if a.handles ≤ 1 then a.bus.close else a.bus }
  | .unsubscribe r =>
    { a with bus := a.bus.unsubscribe r, readers := a.readers.modify r Reader.leave }
  | .receive r =>
    { a with
      bus := (a.bus.receive r).2
      readers := a.readers.modify r (Reader.ask a.ended (a.bus.receive r).1) }

/-- Several things are done in order. -/
def after (a : Readership) (turns : List BusTurn) : Readership :=
  turns.foldl see a

end Readership

/-- What a reader has to get, given the capacity of the bus, what was published
    since it subscribed, and its progress so far. -/
inductive Receipt.Due (capacity : Nat) (since : List Event) (reached : Nat) : Receipt → Prop where
  | event (published : Nat) (ended : Bool) (e : Event) (fresh : reached < published)
      (retained : published ≤ reached + capacity) (entry : since[reached]? = some e) :
      Due capacity since reached ⟨published, ended, .event e⟩
  | lagged (published : Nat) (ended : Bool) (overrun : reached + capacity < published) :
      Due capacity since reached ⟨published, ended, .lagged (published - capacity - reached)⟩
  | empty : Due capacity since reached ⟨reached, false, .empty⟩
  | closed : Due capacity since reached ⟨reached, true, .closed⟩

theorem progress_append (xs ys : List Receipt) :
    progress (xs ++ ys) = progress xs + progress ys := by
  rw [progress, List.map_append, List.sum_append]
  rfl

/-- What was received last counts last. -/
theorem progress_concat (xs : List Receipt) (x : Receipt) :
    progress (xs ++ [x]) = progress xs + x.got.advance := by
  rw [progress_append]
  rfl

namespace Receipt.Due

variable {capacity reached : Nat} {since : List Event} {x y : Receipt}

/-- A receipt never takes a reader beyond what was published. -/
theorem reached_le (h : x.Due capacity since reached) : reached + x.got.advance ≤ x.published := by
  cases h with
  | event published ended e fresh retained entry => exact fresh
  | lagged published ended overrun =>
      dsimp only [Received.advance]
      omega
  | empty => exact Nat.le_refl _
  | closed => exact Nat.le_refl _

/-- What is published later is behind all that was due before. -/
theorem more (h : x.Due capacity since reached) (hle : x.published ≤ since.length)
    (later : List Event) : x.Due capacity (since ++ later) reached := by
  cases h with
  | event published ended e fresh retained entry =>
      refine .event published ended e fresh retained ?_
      rw [List.getElem?_append_left (Nat.lt_of_lt_of_le fresh hle), entry]
  | lagged published ended overrun => exact .lagged published ended overrun
  | empty => exact .empty
  | closed => exact .closed

/-- What is due at a moment is one thing. -/
theorem unique (hx : x.Due capacity since reached) (hy : y.Due capacity since reached)
    (hmoment : x.moment = y.moment) : x = y := by
  rcases x with ⟨published, ended, got⟩
  rcases y with ⟨published', ended', got'⟩
  rcases Prod.mk.injEq _ _ _ _ ▸ hmoment with ⟨hpublished, hended⟩
  dsimp only at hpublished hended
  subst hpublished hended
  cases hx with
  | event _ _ e fresh retained entry =>
      cases hy with
      | event _ _ e' _ _ entry' => rw [Option.some.inj (entry.symm.trans entry')]
      | lagged _ _ overrun => exact absurd overrun (Nat.not_lt.mpr retained)
      | empty => exact absurd fresh (Nat.lt_irrefl _)
      | closed => exact absurd fresh (Nat.lt_irrefl _)
  | lagged _ _ overrun =>
      cases hy with
      | event _ _ _ _ retained _ => exact absurd overrun (Nat.not_lt.mpr retained)
      | lagged => rfl
      | empty => exact absurd overrun (by omega)
      | closed => exact absurd overrun (by omega)
  | empty =>
      cases hy with
      | event _ _ _ fresh _ _ => exact absurd fresh (Nat.lt_irrefl _)
      | lagged _ _ overrun => exact absurd overrun (by omega)
      | empty => rfl
  | closed =>
      cases hy with
      | event _ _ _ fresh _ _ => exact absurd fresh (Nat.lt_irrefl _)
      | lagged _ _ overrun => exact absurd overrun (by omega)
      | closed => rfl

/-- A lag is told once. If nothing is published in between, the oldest entry
    retained follows. -/
theorem followed {n : Nat} (hcapacity : 0 < capacity) (hx : x.Due capacity since reached)
    (hlag : x.got = .lagged n) (hy : y.Due capacity since (reached + x.got.advance))
    (hsame : y.published = x.published) :
    ∃ e, y.got = .event e ∧ since[x.published - capacity]? = some e := by
  cases hx with
  | lagged published ended overrun =>
      have hat : reached + (published - capacity - reached) = published - capacity := by omega
      dsimp only [Received.advance] at hy hsame ⊢
      rw [hat] at hy
      cases hy with
      | event _ _ e _ _ entry => exact ⟨e, rfl, entry⟩
      | lagged published' _ again =>
          -- There is nothing new that could have overwritten more.
          dsimp only at hsame
          exact absurd again (by omega)
      | empty => exact absurd hsame (by dsimp only; omega)
      | closed => exact absurd hsame (by dsimp only; omega)
  | event => exact absurd hlag (by simp only [reduceCtorEq, not_false_eq_true])
  | empty => exact absurd hlag (by simp only [reduceCtorEq, not_false_eq_true])
  | closed => exact absurd hlag (by simp only [reduceCtorEq, not_false_eq_true])

end Receipt.Due

/-- Each receipt of a reader is what was due by then. -/
def Reader.Served (capacity : Nat) (reader : Reader) : Prop :=
  ∀ before x behind, reader.receipts = before ++ x :: behind →
    x.Due capacity reader.since (progress before) ∧ x.published ≤ reader.since.length

namespace Reader.Served

variable {capacity : Nat} {reader other : Reader}

/-- One more receipt is either the last one of a splitting or behind it. -/
theorem concat {since : List Event} {x : Receipt} {receipts : List Receipt} {joined : Nat}
    {left : Bool} (h : Served capacity ⟨joined, left, since, receipts⟩)
    (hx : x.Due capacity since (progress receipts)) (hle : x.published ≤ since.length) :
    Served capacity ⟨joined, left, since, receipts ++ [x]⟩ := by
  intro before y behind hsplit
  rcases List.eq_nil_or_concat' behind with rfl | ⟨behind, last, rfl⟩
  · rcases List.append_inj' hsplit rfl with ⟨rfl, hlast⟩
    rw [List.singleton_inj] at hlast
    exact hlast ▸ ⟨hx, hle⟩
  · rw [← List.cons_append, ← List.append_assoc] at hsplit
    exact h before y behind (List.append_inj' hsplit rfl).1

/-- A reader that hears of one more event has been served as before: it is
    behind by one more. -/
theorem hear (h : reader.Served capacity) (e : Event) : (reader.hear e).Served capacity := by
  unfold Reader.hear
  split
  next => exact h
  next =>
    intro before x behind hsplit
    rcases h before x behind hsplit with ⟨hdue, hle⟩
    refine ⟨hdue.more hle [e], ?_⟩
    rw [List.length_append]
    exact Nat.le_add_right_of_le hle

/-- Receipts at the same moments, due among the same events, are the same. -/
theorem unique (h : reader.Served capacity) (h' : other.Served capacity)
    (hsince : reader.since = other.since)
    (hmoments : reader.receipts.map Receipt.moment = other.receipts.map Receipt.moment) :
    reader.receipts = other.receipts := by
  -- The receipts so far are the same, so the progress is, and so the next is.
  have hrest : ∀ rest rest' before : List Receipt, reader.receipts = before ++ rest →
      other.receipts = before ++ rest' → rest.map Receipt.moment = rest'.map Receipt.moment →
      rest = rest' := by
    intro rest
    induction rest with
    | nil =>
        intro rest' _ _ _ heq
        exact (List.map_eq_nil_iff.mp heq.symm).symm
    | cons x rest ih =>
        intro rest' before hx hy heq
        cases rest' with
        | nil => exact absurd heq (List.cons_ne_nil _ _)
        | cons y rest' =>
            rcases List.cons.inj heq with ⟨hmoment, hbehind⟩
            have hdue := (h before x rest hx).1
            rw [hsince] at hdue
            have hsame := hdue.unique (h' before y rest' hy).1 hmoment
            subst hsame
            rw [ih rest' (before ++ [x]) (by rw [hx, List.append_assoc]; rfl)
              (by rw [hy, List.append_assoc]; rfl) hbehind]
  exact hrest _ _ [] rfl rfl hmoments

end Reader.Served

/-- A sum along a list passes each number on the way. -/
theorem passed_over {receipts : List Receipt} {i : Nat} (h : i < progress receipts) :
    ∃ before x behind, receipts = before ++ x :: behind ∧ progress before ≤ i ∧
      i < progress before + x.got.advance := by
  induction receipts using List.reverseRecOn with
  | nil => exact absurd h (Nat.not_lt_zero i)
  | append_singleton before x ih =>
      by_cases hi : i < progress before
      · rcases ih hi with ⟨first, y, behind, hsplit, hle, hlt⟩
        exact ⟨first, y, behind ++ [x], by rw [hsplit, List.append_assoc]; rfl, hle, hlt⟩
      · rw [progress_concat] at h
        exact ⟨before, x, [], rfl, Nat.le_of_not_lt hi, h⟩

/-- Nothing of what is retained is passed over: an entry behind which a reader
    has got, and which is one of the last that were published, was delivered
    to it. -/
theorem Reader.Served.delivered {capacity : Nat} {reader : Reader} (h : reader.Served capacity)
    {i : Nat} (hpassed : i < progress reader.receipts)
    (hlast : reader.since.length ≤ i + capacity) :
    ∃ before x behind e, reader.receipts = before ++ x :: behind ∧ progress before = i ∧
      x.got = .event e ∧ reader.since[i]? = some e := by
  rcases passed_over hpassed with ⟨before, x, behind, hsplit, hle, hlt⟩
  rcases h before x behind hsplit with ⟨hdue, hpublished⟩
  cases hdue with
  | event published ended e fresh retained entry =>
      dsimp only [Received.advance] at hlt
      have hat : progress before = i := by omega
      exact ⟨before, _, behind, e, hsplit, hat, rfl, hat ▸ entry⟩
  | lagged published ended overrun =>
      dsimp only [Received.advance] at hlt hpublished
      exact absurd hlt (by omega)
  | empty => exact absurd hlt (Nat.not_lt.mpr hle)
  | closed => exact absurd hlt (Nat.not_lt.mpr hle)

namespace Bus

variable {b : Bus} {joined reached : Nat} {since : List Event}

/-- What is given at a position is due there, and the receiver then stands
    behind it. -/
theorem receiveAt_due (hsince : since = b.log.toList.drop joined)
    (hlog : joined + since.length = b.log.size) (hreached : reached ≤ since.length) :
    (⟨since.length, b.closed, (b.receiveAt (joined + reached)).1⟩ : Receipt).Due b.capacity since
        reached ∧
      (b.receiveAt (joined + reached)).2
        = joined + (reached + (b.receiveAt (joined + reached)).1.advance) := by
  by_cases hlag : joined + reached < b.oldest
  · have hcount : b.oldest - (joined + reached) = since.length - b.capacity - reached := by
      rw [oldest] at hlag ⊢
      omega
    rw [receiveAt_of_lt_oldest b _ hlag, hcount]
    refine ⟨.lagged _ _ (by rw [oldest] at hlag; omega), ?_⟩
    dsimp only [Received.advance]
    rw [oldest] at hlag ⊢
    omega
  · by_cases hsize : joined + reached < b.log.size
    · rw [receiveAt_of_lt_size b _ hlag hsize]
      refine ⟨.event _ _ _ (by omega) (by rw [oldest] at hlag; omega) ?_, rfl⟩
      rw [hsince, List.getElem?_drop, Array.getElem?_toList, Array.getElem?_eq_getElem hsize]
    · have hall : since.length = reached := by omega
      rw [receiveAt, if_neg hlag, Array.getElem?_eq_none (Nat.le_of_not_lt hsize), hall]
      dsimp only
      cases b.closed with
      | false => exact ⟨.empty, rfl⟩
      | true => exact ⟨.closed, rfl⟩

/-- Inside the window entries are given one by one, until there is none left. -/
theorem drainFrom_window (attempts position : Nat) (got : List Received)
    (hin : ¬ position < b.oldest) (hsize : position ≤ b.log.size)
    (henough : b.log.size - position < attempts) :
    (b.drainFrom attempts position got).1
      = got.reverse ++ (b.log.toList.drop position).map .event := by
  induction attempts generalizing position got with
  | zero => exact absurd henough (Nat.not_lt_zero _)
  | succ attempts ih =>
      rw [drainFrom]
      by_cases hlt : position < b.log.size
      · have hdrop : b.log.toList.drop position
            = b.log[position] :: b.log.toList.drop (position + 1) :=
          List.drop_eq_getElem_cons hlt
        rw [receiveAt_of_lt_size b position hin hlt]
        dsimp only
        rw [ih (position + 1) _ (by omega) hlt (by omega), hdrop, List.map_cons, List.reverse_cons,
          List.append_assoc]
        rfl
      · have hend : b.log.toList.drop position = [] :=
          List.drop_eq_nil_of_le (Nat.le_of_not_lt hlt)
        rw [receiveAt, if_neg hin, Array.getElem?_eq_none (Nat.le_of_not_lt hlt), hend]
        cases b.closed with
        | false => exact (List.append_nil _).symm
        | true => exact (List.append_nil _).symm

/-- All that a receiver can get now: at most one lag, then everything that is
    retained of what it has not got. -/
theorem drain_eq {r position : Nat} (hstands : b.receivers[r]? = some (some position))
    (hsize : position ≤ b.log.size) :
    (b.drain r).1 = (if position < b.oldest then [.lagged (b.oldest - position)] else [])
      ++ (b.log.toList.drop (max position b.oldest)).map .event := by
  have hdrain : (b.drain r).1 = (b.drainFrom (b.log.size - position + 2) position []).1 := by
    rw [drain, hstands]
  have holdest : b.oldest ≤ b.log.size := Nat.sub_le _ _
  rw [hdrain]
  split
  next hlag =>
    rw [drainFrom, receiveAt_of_lt_oldest b position hlag]
    dsimp only
    rw [drainFrom_window _ _ _ (Nat.lt_irrefl _) holdest (by omega),
      Nat.max_eq_right (Nat.le_of_lt hlag)]
    rfl
  next hin =>
    rw [drainFrom_window _ _ _ hin hsize (by omega), Nat.max_eq_left (Nat.le_of_not_lt hin)]
    rfl

end Bus

namespace Readership

variable {a b : Readership} {r : Nat}

/-- What is noted of a receiver agrees with the bus. -/
structure KeptFor (a : Readership) (r : Nat) (reader : Reader) : Prop where
  served : reader.Served a.bus.capacity
  /-- What was published is in the log from where it joined. -/
  recorded : reader.since <+: a.bus.log.toList.drop reader.joined
  within : progress reader.receipts ≤ reader.since.length
  departed : reader.left = true → a.bus.receivers[r]? = some none
  /-- It stands where its progress has brought it. -/
  stands : reader.left = false →
    a.bus.receivers[r]? = some (some (reader.joined + progress reader.receipts)) ∧
    reader.since = a.bus.log.toList.drop reader.joined ∧
    reader.joined + reader.since.length = a.bus.log.size

/-- An event that a receiver got stands in the log as far from where it joined
    as its progress was. -/
theorem KeptFor.logged {reader : Reader} (h : a.KeptFor r reader) {before behind : List Receipt}
    {x : Receipt} {e : Event} (hsplit : reader.receipts = before ++ x :: behind)
    (hgot : x.got = .event e) : a.bus.log.toList[reader.joined + progress before]? = some e := by
  cases (h.served before x behind hsplit).1 with
  | event published ended e' fresh retained entry =>
      rcases h.recorded with ⟨later, hlog⟩
      have hlt := (List.getElem?_eq_some_iff.mp entry).1
      rw [← List.getElem?_drop, ← hlog, List.getElem?_append_left hlt, entry,
        Received.event.inj hgot]
  | lagged => exact absurd hgot (by simp only [reduceCtorEq, not_false_eq_true])
  | empty => exact absurd hgot (by simp only [reduceCtorEq, not_false_eq_true])
  | closed => exact absurd hgot (by simp only [reduceCtorEq, not_false_eq_true])

/-- All that a receiver can get now: one lag if it is behind, and what is
    retained. It makes no difference whether the bus is closed. -/
theorem KeptFor.drained {reader : Reader} (h : a.KeptFor r reader) (hhere : reader.left = false)
    {bus : Bus} (hcapacity : bus.capacity = a.bus.capacity) (hlog : bus.log = a.bus.log)
    (hreceivers : bus.receivers = a.bus.receivers) :
    (bus.drain r).1
      = (if progress reader.receipts + bus.capacity < reader.since.length
          then [.lagged (reader.since.length - bus.capacity - progress reader.receipts)] else [])
        ++ (reader.since.drop (max (progress reader.receipts)
            (reader.since.length - bus.capacity))).map .event := by
  rcases h.stands hhere with ⟨hstands, hsince, hsize⟩
  rw [← hreceivers] at hstands
  rw [← hlog] at hsince hsize
  have hwithin := h.within
  have holdest : bus.oldest = reader.joined + reader.since.length - bus.capacity := by
    rw [Bus.oldest, ← hsize]
  have hlag : (reader.joined + progress reader.receipts < bus.oldest)
      = (progress reader.receipts + bus.capacity < reader.since.length) :=
    propext ⟨fun hlt => by omega, fun hlt => by omega⟩
  have hcount : bus.oldest - (reader.joined + progress reader.receipts)
      = reader.since.length - bus.capacity - progress reader.receipts := by omega
  have hfrom : max (reader.joined + progress reader.receipts) bus.oldest
      = reader.joined + max (progress reader.receipts) (reader.since.length - bus.capacity) := by
    omega
  have hdrop : bus.log.toList.drop (max (reader.joined + progress reader.receipts) bus.oldest)
      = reader.since.drop (max (progress reader.receipts)
          (reader.since.length - bus.capacity)) := by
    rw [hfrom, ← List.drop_drop, ← hsince]
  rw [Bus.drain_eq hstands (by omega), hcount, hdrop]
  simp only [hlag]

/-- Each reader agrees with the bus, and the bus is closed if nobody can
    publish. -/
structure Kept (a : Readership) : Prop where
  places : a.readers.length = a.bus.receivers.length
  closed : a.bus.closed = a.ended
  readers : ∀ r reader, a.readers[r]? = some reader → a.KeptFor r reader

theorem kept_start (capacity : Nat) : (start { capacity }).Kept :=
  ⟨rfl, rfl, fun _ _ h => absurd h.symm (Option.some_ne_none _)⟩

/-- Whoever has not left is counted, so that what is published is recorded. -/
theorem KeptFor.publish {reader : Reader} (h : a.KeptFor r reader) (hopen : a.bus.closed = false)
    (e : Event) (readers : List Reader) :
    ({ a with bus := a.bus.publish e, readers } : Readership).KeptFor r (reader.hear e) := by
  have hgrows := Bus.grows_publish a.bus e
  have hserved := h.served.hear e
  rw [← hgrows.capacity] at hserved
  cases hleft : reader.left with
  | true =>
      rw [Reader.hear, if_pos hleft] at hserved ⊢
      refine ⟨hserved, h.recorded.trans (hgrows.log.drop reader.joined), h.within,
        fun hgone => ?_, fun hhere => absurd (hleft.symm.trans hhere) Bool.noConfusion⟩
      exact (congrArg (·[r]?) hgrows.receivers).trans (h.departed hgone)
  | false =>
      rcases h.stands hleft with ⟨hstands, hsince, hsize⟩
      -- It is counted itself, so somebody listens.
      have hheard : a.bus.receiverCount ≠ 0 :=
        Nat.ne_of_gt (List.countP_pos_iff.mpr ⟨_, List.mem_of_getElem? hstands, rfl⟩)
      have hpublish : a.bus.publish e = { a.bus with log := a.bus.log.push e } := by
        refine if_neg ?_
        rw [hopen, Bool.false_or, decide_eq_true_eq]
        exact hheard
      have hdrop : (a.bus.log.push e).toList.drop reader.joined = reader.since ++ [e] := by
        have hle : reader.joined ≤ a.bus.log.toList.length := by
          rw [Array.length_toList]
          omega
        rw [Array.toList_push, List.drop_append_of_le_length hle, hsince]
      have hlater : reader.hear e = { reader with since := reader.since ++ [e] } := by
        rw [Reader.hear, if_neg (Bool.eq_false_iff.mp hleft)]
      rw [hlater] at hserved ⊢
      rw [hpublish] at hserved ⊢
      refine ⟨hserved, ?_, ?_, fun hgone => absurd (hleft.symm.trans hgone) Bool.noConfusion,
        fun _ => ⟨hstands, hdrop.symm, ?_⟩⟩
      · exact hdrop ▸ List.prefix_rfl
      · dsimp only
        rw [List.length_append]
        exact Nat.le_add_right_of_le h.within
      · dsimp only
        rw [List.length_append, Array.size_push, ← hsize]
        rfl

/-- What changes neither the log nor the place of a receiver does not matter to it. -/
theorem KeptFor.aside {reader : Reader} (h : a.KeptFor r reader)
    (hcapacity : b.bus.capacity = a.bus.capacity) (hlog : b.bus.log = a.bus.log)
    (hplace : b.bus.receivers[r]? = a.bus.receivers[r]?) : b.KeptFor r reader := by
  refine ⟨hcapacity ▸ h.served, hlog ▸ h.recorded, h.within, fun hgone => ?_, fun hhere => ?_⟩
  · rw [hplace]
    exact h.departed hgone
  · rw [hplace, hlog]
    exact h.stands hhere

/-- Who leaves keeps what was heard until then. -/
theorem KeptFor.leave {reader : Reader} (h : a.KeptFor r reader)
    (hcapacity : b.bus.capacity = a.bus.capacity) (hlog : b.bus.log = a.bus.log)
    (hgone : b.bus.receivers[r]? = some none) : b.KeptFor r reader.leave :=
  ⟨hcapacity ▸ h.served, hlog ▸ h.recorded, h.within, fun _ => hgone,
    fun hhere => absurd hhere.symm Bool.noConfusion⟩

/-- An attempt takes a receiver on by what it gets. -/
theorem KeptFor.ask {reader : Reader} (h : a.KeptFor r reader) (hclosed : a.bus.closed = a.ended)
    (readers : List Reader) :
    ({ a with bus := (a.bus.receive r).2, readers } : Readership).KeptFor r
      (reader.ask a.ended (a.bus.receive r).1) := by
  cases hleft : reader.left with
  | true =>
      have hnone : a.bus.receive r = (.closed, a.bus) := by
        rw [Bus.receive, h.departed hleft]
      rw [Reader.ask, if_pos hleft, hnone]
      exact h.aside rfl rfl rfl
  | false =>
      rcases h.stands hleft with ⟨hstands, hsince, hsize⟩
      rcases Bus.receiveAt_due hsince hsize h.within with ⟨hdue, hnext⟩
      have hplace : r < a.bus.receivers.length := (List.getElem?_eq_some_iff.mp hstands).1
      rw [Reader.ask, if_neg (Bool.eq_false_iff.mp hleft), Bus.receive_eq hstands, ← hclosed]
      refine ⟨h.served.concat hdue (Nat.le_refl _), h.recorded, ?_,
        fun hgone => absurd (hleft.symm.trans hgone) Bool.noConfusion,
        fun _ => ⟨?_, hsince, hsize⟩⟩
      · rw [progress_concat]
        exact hdue.reached_le
      · dsimp only
        rw [List.getElem?_set_self hplace, hnext, progress_concat]

/-- An attempt leaves the log and the places of all others as they are. -/
theorem receive_frame (bus : Bus) (i : Nat) :
    (bus.receive i).2.capacity = bus.capacity ∧ (bus.receive i).2.log = bus.log ∧
      (bus.receive i).2.closed = bus.closed ∧
      (bus.receive i).2.receivers.length = bus.receivers.length ∧
      ∀ r, r ≠ i → (bus.receive i).2.receivers[r]? = bus.receivers[r]? := by
  unfold Bus.receive
  split
  next =>
    exact ⟨rfl, rfl, rfl, List.length_set, fun r hr => List.getElem?_set_ne (Ne.symm hr)⟩
  next => exact ⟨rfl, rfl, rfl, rfl, fun _ _ => rfl⟩

/-- What is done at one place of a list is seen there and nowhere else. -/
theorem getElem?_modify_some {readers : List Reader} {i : Nat} {f : Reader → Reader}
    {reader : Reader} (h : (readers.modify i f)[r]? = some reader) :
    ∃ before, readers[r]? = some before ∧ reader = if i = r then f before else before := by
  rw [List.getElem?_modify] at h
  rcases Option.map_eq_some_iff.mp h with ⟨before, hbefore, rfl⟩
  refine ⟨before, hbefore, ?_⟩
  split
  next => rfl
  next => rfl

/-- Everybody who listens hears it. -/
theorem kept_publish (h : a.Kept) (e : Event) : (a.see (.publish e)).Kept := by
  unfold see
  dsimp only
  split
  next => exact h
  next hlive =>
    have hopen : a.bus.closed = false := h.closed.trans (Bool.eq_false_iff.mpr hlive)
    have hgrows := Bus.grows_publish a.bus e
    refine ⟨?_, hgrows.closed.trans h.closed, fun r reader hreader => ?_⟩
    · rw [List.length_map, hgrows.receivers]
      exact h.places
    · rw [List.getElem?_map] at hreader
      rcases Option.map_eq_some_iff.mp hreader with ⟨before, hbefore, rfl⟩
      exact (h.readers r before hbefore).publish hopen e _

/-- A new receiver stands behind all that was published. -/
theorem kept_subscribe (h : a.Kept) : (a.see .subscribe).Kept := by
  unfold see
  dsimp only
  split
  next => exact h
  next =>
    refine ⟨?_, h.closed, fun r reader hreader => ?_⟩
    · rw [List.length_append, Bus.subscribe, List.length_append, h.places]
      rfl
    · rcases Nat.lt_or_ge r a.readers.length with hr | hr
      · rw [List.getElem?_append_left hr] at hreader
        refine (h.readers r reader hreader).aside rfl rfl ?_
        exact List.getElem?_append_left (h.places ▸ hr)
      · rw [List.getElem?_append_right hr] at hreader
        rcases List.getElem?_eq_some_iff.mp hreader with ⟨hlt, rfl⟩
        have hnew : r = a.bus.receivers.length := by
          rw [List.length_singleton] at hlt
          have hplaces := h.places
          omega
        have hnone : a.bus.log.toList.drop a.bus.log.size = [] :=
          List.drop_eq_nil_of_le (Nat.le_of_eq Array.length_toList)
        rw [List.getElem_singleton]
        refine ⟨fun before x behind hsplit => ?_, List.nil_prefix, Nat.le_refl 0,
          fun hgone => absurd hgone Bool.noConfusion, fun _ => ⟨?_, hnone.symm, rfl⟩⟩
        · exact absurd hsplit.symm (List.append_ne_nil_of_right_ne_nil _ (List.cons_ne_nil _ _))
        · rw [hnew]
          exact List.getElem?_concat_length

theorem kept_drop (h : a.Kept) : (a.see .drop).Kept := by
  refine ⟨?_, ?_, fun r reader hreader => ?_⟩
  · dsimp only [see]
    split
    next => exact h.places
    next => exact h.places
  · have hclosed := h.closed
    dsimp only [see, ended] at hclosed ⊢
    split
    next hlast => exact (beq_iff_eq.mpr (Nat.sub_eq_zero_of_le hlast)).symm
    next hmore =>
      rw [hclosed, beq_false_of_ne (by omega), beq_false_of_ne (by omega)]
  · have hbefore := h.readers r reader hreader
    dsimp only [see]
    split
    next => exact hbefore.aside rfl rfl rfl
    next => exact hbefore.aside rfl rfl rfl

theorem kept_unsubscribe (h : a.Kept) (i : Nat) : (a.see (.unsubscribe i)).Kept := by
  refine ⟨?_, h.closed, fun r reader hreader => ?_⟩
  · dsimp only [see, Bus.unsubscribe]
    rw [List.length_modify, List.length_set]
    exact h.places
  · rcases getElem?_modify_some hreader with ⟨before, hbefore, rfl⟩
    have hplace : r < a.bus.receivers.length :=
      h.places ▸ (List.getElem?_eq_some_iff.mp hbefore).1
    split
    next hir =>
      refine (h.readers r before hbefore).leave rfl rfl ?_
      dsimp only [see, Bus.unsubscribe]
      rw [hir, List.getElem?_set_self hplace]
    next hir =>
      refine (h.readers r before hbefore).aside rfl rfl ?_
      exact List.getElem?_set_ne hir

/-- What one receiver gets is nothing to the others. -/
theorem kept_receive (h : a.Kept) (i : Nat) : (a.see (.receive i)).Kept := by
  rcases receive_frame a.bus i with ⟨hcapacity, hlog, hclosed, hlength, hothers⟩
  refine ⟨?_, hclosed.trans h.closed, fun r reader hreader => ?_⟩
  · dsimp only [see]
    rw [List.length_modify, hlength]
    exact h.places
  · rcases getElem?_modify_some hreader with ⟨before, hbefore, rfl⟩
    split
    next hir =>
      subst hir
      exact (h.readers i before hbefore).ask h.closed _
    next hir =>
      exact (h.readers r before hbefore).aside hcapacity hlog (hothers r (Ne.symm hir))

/-- Whatever is done to the bus, what is noted is right. -/
theorem kept_see (h : a.Kept) (t : BusTurn) : (a.see t).Kept := by
  cases t with
  | publish e => exact kept_publish h e
  | subscribe => exact kept_subscribe h
  | clone =>
      unfold see
      dsimp only
      split
      next => exact h
      next hlive =>
        refine ⟨h.places, ?_,
          fun r reader hreader => (h.readers r reader hreader).aside rfl rfl rfl⟩
        exact h.closed.trans (Bool.eq_false_iff.mpr hlive)
  | drop => exact kept_drop h
  | unsubscribe i => exact kept_unsubscribe h i
  | receive i => exact kept_receive h i

/-- The log of a run is what was published in it, and each reader that is there
    stands where its receipts have brought it. -/
theorem kept_after (h : a.Kept) (turns : List BusTurn) : (a.after turns).Kept := by
  induction turns generalizing a with
  | nil => exact h
  | cons t rest ih => exact ih (kept_see h t)

theorem capacity_see (a : Readership) (t : BusTurn) : (a.see t).bus.capacity = a.bus.capacity := by
  cases t with
  | publish e =>
      unfold see
      dsimp only
      split
      next => rfl
      next => exact (Bus.grows_publish a.bus e).capacity
  | subscribe =>
      unfold see
      dsimp only
      split
      next => rfl
      next => rfl
  | clone =>
      unfold see
      dsimp only
      split
      next => rfl
      next => rfl
  | drop =>
      dsimp only [see]
      split
      next => rfl
      next => rfl
  | unsubscribe i => rfl
  | receive i => exact (receive_frame a.bus i).1

/-- A run leaves the capacity as it is, so the window is of one size throughout. -/
theorem capacity_after (a : Readership) (turns : List BusTurn) :
    (a.after turns).bus.capacity = a.bus.capacity := by
  induction turns generalizing a with
  | nil => rfl
  | cons t rest ih => exact (ih (a.see t)).trans (capacity_see a t)

/-- What a receiver of a bus that was made with a capacity got. -/
theorem served_after (capacity : Nat) (turns : List BusTurn) {reader : Reader}
    (h : ((start { capacity }).after turns).readers[r]? = some reader) :
    reader.Served capacity := by
  have hserved := ((kept_after (kept_start capacity) turns).readers r reader h).served
  rwa [capacity_after] at hserved

end Readership

end SoftPlc
