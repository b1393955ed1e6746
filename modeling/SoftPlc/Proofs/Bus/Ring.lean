import SoftPlc.Proofs.Bus.Separation

/-!
# The ring behind the window

A bus keeps its whole log, which no program could afford. What is kept in
earnest is a ring: as many slots as the window is long, each entry written to
the slot that its place in the log falls to, over what was there. A receiver
looks at the slot that its next entry falls to and has to tell from what it
finds whether the entry is there, was overwritten, or has not been written yet.

So each slot keeps the place of its entry beside the entry. The invariant
(`Ring.Shows`) is about a slot and not about an entry: it holds the newest entry
that falls to it, or nothing if there was none so far. Two entries of one slot
are at least a full turn apart (`eq_of_mod_eq`), and that decides between the
three cases, however many turns a receiver is behind.

The number of slots is a power of two, the least that is enough. That is all
that becomes of the capacity that was asked for.

## Main definitions

* `Ring`: The slots, with the receivers.
* `Ring.see`: What is done to it.
* `Ring.Shows`: A ring that keeps the window of a bus.

## Theorems

* `Bus.window_least`: The capacity of a bus.
* `Ring.receiveAt_eq`: A slot tells what the log would.
* `Ring.shows_after`: The ring keeps the window along any run.
* `log_seen_through_window`: What receivers get from a bus.
-/

namespace SoftPlc

/-- As many slots as are retained, with the receivers and the handles. -/
structure Ring where
  /-- The entry last written to each slot, with its place in the log. -/
  slots : List (Option (Nat × Event))
  /-- The place of the next entry. -/
  tail : Nat := 0
  /-- The place of what each receiver gets next; `none` for one that has left. -/
  cursors : List (Option Nat) := []
  handles : Nat := 1

namespace Ring

/-- A ring to which nothing has been written. -/
def start (size : Nat) : Ring :=
  { slots := List.replicate size none }

/-- Writes an event over what is in its slot, if anyone listens. -/
def write (ring : Ring) (e : Event) : Ring :=
  if ring.cursors.countP Option.isSome = 0 then ring
  else
    { ring with
      slots := ring.slots.set (ring.tail % ring.slots.length) (some (ring.tail, e))
      tail := ring.tail + 1 }

/-- What a receiver gets that is not behind. -/
def nothing (ring : Ring) : Received :=
  if ring.handles = 0 then .closed else .empty

/-- What a receiver gets and where it stands then, as its slot tells. -/
def receiveAt (ring : Ring) (next : Nat) : Received × Nat :=
  match ring.slots[next % ring.slots.length]? with
  | some (some (place, e)) =>
    if place = next then (.event e, next + 1)
    else if next < place then
      (.lagged (ring.tail - ring.slots.length - next), ring.tail - ring.slots.length)
    else (ring.nothing, next)
  | _ => (ring.nothing, next)

/-- What a receiver gets next. One that has left gets nothing. -/
def receive (ring : Ring) (receiver : Nat) : Received × Ring :=
  match ring.cursors[receiver]? with
  | some (some next) =>
    ((ring.receiveAt next).1,
      { ring with cursors := ring.cursors.set receiver (some (ring.receiveAt next).2) })
  | _ => (.closed, ring)

/-- Something is done to the ring. -/
def see (ring : Ring) : BusTurn → Ring
  | .publish e => if ring.handles = 0 then ring else ring.write e
  | .subscribe =>
    if ring.handles = 0 then ring else { ring with cursors := ring.cursors ++ [some ring.tail] }
  | .clone => if ring.handles = 0 then ring else { ring with handles := ring.handles + 1 }
  | .drop => { ring with handles := ring.handles - 1 }
  | .unsubscribe r => { ring with cursors := ring.cursors.set r none }
  | .receive r => (ring.receive r).2

/-- Several things are done in order. -/
def after (ring : Ring) (turns : List BusTurn) : Ring :=
  turns.foldl see ring

/-- A slot holds the newest entry that falls to it, or nothing if there was
    none. -/
inductive Holds (slots : List (Option (Nat × Event))) (tail : Nat) (log : List Event) (i : Nat) :
    Prop where
  | unwritten (slot : slots[i]? = some none) (early : tail ≤ i)
  | newest (place : Nat) (e : Event) (slot : slots[i]? = some (some (place, e)))
      (falls : place % slots.length = i) (written : place < tail)
      (last : tail ≤ place + slots.length) (entry : log[place]? = some e)

/-- A ring that keeps the window of a bus. -/
structure Shows (ring : Ring) (a : Readership) : Prop where
  size : ring.slots.length = a.bus.capacity
  tail : ring.tail = a.bus.log.size
  cursors : ring.cursors = a.bus.receivers
  handles : ring.handles = a.handles
  slots : ∀ i, i < ring.slots.length → Holds ring.slots ring.tail a.bus.log.toList i

end Ring

/-- Two entries of one slot that are less than a turn apart are one. -/
theorem eq_of_mod_eq {size p q : Nat} (h : p % size = q % size) (hp : p < q + size)
    (hq : q < p + size) : p = q := by
  rcases Nat.le_total p q with hle | hle
  · have hzero := Nat.sub_mod_eq_zero_of_mod_eq h.symm
    rw [Nat.mod_eq_of_lt (by omega)] at hzero
    omega
  · have hzero := Nat.sub_mod_eq_zero_of_mod_eq h
    rw [Nat.mod_eq_of_lt (by omega)] at hzero
    omega

namespace Bus

/-- Doubling ends at the first power that is enough. -/
theorem powerFrom_least (n : Nat) (steps k : Nat) (henough : n ≤ 2 ^ (k + steps)) :
    ∃ m, powerFrom n steps (2 ^ k) = 2 ^ m ∧ n ≤ 2 ^ m ∧ ∀ i, k ≤ i → n ≤ 2 ^ i → m ≤ i := by
  induction steps generalizing k with
  | zero => exact ⟨k, rfl, henough, fun i hi _ => hi⟩
  | succ steps ih =>
      rw [powerFrom]
      split
      next hn => exact ⟨k, rfl, hn, fun i hi _ => hi⟩
      next hn =>
        rw [Nat.mul_comm, ← Nat.pow_succ]
        rcases ih (k + 1) (by rwa [Nat.add_assoc, Nat.add_comm 1]) with ⟨m, hm, hle, hleast⟩
        refine ⟨m, hm, hle, fun i hi hni => hleast i ?_ hni⟩
        -- The power itself is too small.
        rcases Nat.lt_or_eq_of_le hi with hlt | rfl
        · exact hlt
        · exact absurd hni hn

/-- The capacity of a bus is the least power of two that is enough, and at
    least one. -/
theorem window_least (n : Nat) :
    ∃ k, window n = 2 ^ k ∧ max n 1 ≤ window n ∧ ∀ i, n ≤ 2 ^ i → window n ≤ 2 ^ i := by
  have henough : n ≤ 2 ^ (0 + (Nat.log2 n + 1)) := by
    rw [Nat.zero_add]
    exact Nat.le_of_lt Nat.lt_log2_self
  rcases powerFrom_least n (Nat.log2 n + 1) 0 henough with ⟨k, hk, hle, hleast⟩
  have hwindow : window n = 2 ^ k := hk
  refine ⟨k, hwindow, ?_, fun i hi => ?_⟩
  · rw [hwindow]
    exact Nat.max_le.mpr ⟨hle, Nat.two_pow_pos k⟩
  · rw [hwindow]
    exact Nat.pow_le_pow_right (Nat.succ_pos 1) (hleast i (Nat.zero_le i) hi)

end Bus

/-- A receiver never stands behind the end of the log. -/
theorem Readership.Kept.position_le {a : Readership} (h : a.Kept) {r position : Nat}
    (hstands : a.bus.receivers[r]? = some (some position)) : position ≤ a.bus.log.size := by
  have hr : r < a.readers.length := h.places ▸ (List.getElem?_eq_some_iff.mp hstands).1
  have hreader := h.readers r _ (List.getElem?_eq_getElem hr)
  cases hleft : a.readers[r].left with
  | true => exact absurd (hstands.symm.trans (hreader.departed hleft)) (by simp)
  | false =>
      rcases hreader.stands hleft with ⟨hat, _, hsize⟩
      have hposition := Option.some.inj (Option.some.inj (hstands.symm.trans hat))
      have hwithin := hreader.within
      omega

namespace Ring

variable {ring : Ring} {a : Readership}

theorem shows_start (capacity : Nat) : (start capacity).Shows (.start { capacity }) := by
  refine ⟨List.length_replicate, rfl, rfl, rfl, fun i hi => .unwritten ?_ (Nat.zero_le i)⟩
  exact List.getElem?_eq_some_iff.mpr ⟨hi, List.getElem_replicate _⟩

/-- A slot tells what the log would. -/
theorem receiveAt_eq (h : ring.Shows a) (hkept : a.Kept) (hcapacity : 0 < a.bus.capacity)
    {next : Nat} (hnext : next ≤ a.bus.log.size) : ring.receiveAt next = a.bus.receiveAt next := by
  have hsize := h.size
  have htail := h.tail
  have hnothing : ring.nothing = if a.bus.closed then .closed else .empty := by
    rw [nothing, h.handles, hkept.closed, Readership.ended]
    by_cases hzero : a.handles = 0
    · rw [if_pos hzero, hzero]
      rfl
    · rw [if_neg hzero, beq_false_of_ne hzero]
      rfl
  have hend : next = a.bus.log.size →
      a.bus.receiveAt next = (if a.bus.closed then .closed else .empty, next) := by
    rintro rfl
    rw [Bus.receiveAt, if_neg (by rw [Bus.oldest]; omega),
      Array.getElem?_eq_none (Nat.le_refl _)]
  have hslot : next % ring.slots.length < ring.slots.length := Nat.mod_lt _ (hsize ▸ hcapacity)
  rw [receiveAt]
  cases h.slots _ hslot with
  | unwritten slot early =>
      have hle := Nat.mod_le next ring.slots.length
      rw [slot, hnothing, hend (by omega)]
  | newest place e slot falls written last entry =>
      rw [slot]
      dsimp only
      split
      next hsame =>
        subst hsame
        have hlt : place < a.bus.log.size := htail ▸ written
        rw [Bus.receiveAt_of_lt_size _ _ (by rw [Bus.oldest]; omega) hlt]
        rw [Array.getElem?_toList, Array.getElem?_eq_getElem hlt] at entry
        rw [Option.some.inj entry]
      next hother =>
        split
        next hlt =>
          -- What was there has been overwritten, a full turn ago at least.
          have hturn : ¬ place < next + ring.slots.length :=
            fun hless => hother (eq_of_mod_eq falls hless (by omega))
          rw [Bus.receiveAt_of_lt_oldest _ _ (by rw [Bus.oldest]; omega), Bus.oldest, ← hsize,
            ← htail]
        next hge =>
          -- The entry before it is still there, so there is none yet.
          have hturn : ¬ next < place + ring.slots.length :=
            fun hless => hother (eq_of_mod_eq falls (by omega) hless)
          rw [hnothing, hend (by omega)]

/-- A ring that shows a bus answers each receiver as the bus does, and moves its
    cursor as the bus moves its position. -/
theorem receive_eq (h : ring.Shows a) (hkept : a.Kept) (hcapacity : 0 < a.bus.capacity) (r : Nat) :
    (ring.receive r).1 = (a.bus.receive r).1 ∧
      (ring.receive r).2 = { ring with cursors := (a.bus.receive r).2.receivers } := by
  unfold receive
  rw [h.cursors]
  split
  next next hstands =>
    rw [receiveAt_eq h hkept hcapacity (hkept.position_le hstands), Bus.receive_eq hstands]
    exact ⟨rfl, rfl⟩
  next hgone =>
    have hnone : a.bus.receive r = (.closed, a.bus) := by
      unfold Bus.receive
      split
      next position hstands => exact absurd hstands (hgone position)
      next => rfl
    rw [hnone, ← h.cursors]
    exact ⟨rfl, rfl⟩

/-- Writing takes one slot a turn further, and the others are within the window
    still. -/
theorem shows_write (h : ring.Shows a) (hcapacity : 0 < a.bus.capacity)
    (hopen : a.bus.closed = false) (e : Event) (readers : List Reader) :
    (ring.write e).Shows { a with bus := a.bus.publish e, readers } := by
  have hcount : ring.cursors.countP Option.isSome = a.bus.receiverCount :=
    congrArg (List.countP Option.isSome) h.cursors
  by_cases hheard : a.bus.receiverCount = 0
  · have hpublish : a.bus.publish e = a.bus := by
      rw [Bus.publish, hheard, hopen]
      rfl
    rw [write, if_pos (hcount.trans hheard), hpublish]
    exact ⟨h.size, h.tail, h.cursors, h.handles, h.slots⟩
  · have hpublish : a.bus.publish e = { a.bus with log := a.bus.log.push e } := by
      refine if_neg ?_
      rw [hopen, Bool.false_or, decide_eq_true_eq]
      exact hheard
    have hslots : 0 < ring.slots.length := h.size ▸ hcapacity
    rw [write, if_neg (hcount ▸ hheard), hpublish]
    refine ⟨List.length_set.trans h.size, ?_, h.cursors, h.handles, fun i hi => ?_⟩
    · exact (congrArg (· + 1) h.tail).trans (Array.size_push _).symm
    · dsimp only at hi ⊢
      rw [List.length_set] at hi
      rw [Array.toList_push]
      have hlast : (a.bus.log.toList ++ [e])[ring.tail]? = some e := by
        rw [h.tail, ← Array.length_toList]
        exact List.getElem?_concat_length
      -- One slot is overwritten: its number is that of the event modulo the size.
      by_cases hfalls : ring.tail % ring.slots.length = i
      · refine .newest ring.tail e ?_ ?_ (Nat.lt_succ_self _) ?_ hlast
        · rw [hfalls]
          exact List.getElem?_set_self hi
        · rw [List.length_set]
          exact hfalls
        · rw [List.length_set]
          exact Nat.add_le_add_left hslots _
      · have hslot : (ring.slots.set (ring.tail % ring.slots.length) (some (ring.tail, e)))[i]?
            = ring.slots[i]? := List.getElem?_set_ne hfalls
        cases h.slots i hi with
        | unwritten slot early =>
            refine .unwritten (hslot.trans slot) ?_
            rcases Nat.lt_or_eq_of_le early with hlt | heq
            · exact hlt
            · exact absurd ((Nat.mod_eq_of_lt (heq ▸ hi)).trans heq) hfalls
        | newest place f slot falls written last entry =>
            refine .newest place f (hslot.trans slot) ?_ (Nat.lt_succ_of_lt written) ?_ ?_
            · rw [List.length_set]
              exact falls
            · rw [List.length_set]
              rcases Nat.lt_or_eq_of_le last with hlt | heq
              · exact hlt
              · exact absurd (by rw [heq, Nat.add_mod_right, falls]) hfalls
            · rw [List.getElem?_append_left ((List.getElem?_eq_some_iff.mp entry).1), entry]

theorem shows_see (h : ring.Shows a) (hkept : a.Kept) (hcapacity : 0 < a.bus.capacity)
    (t : BusTurn) : (ring.see t).Shows (a.see t) := by
  have hended : (a.ended = true) = (ring.handles = 0) := by
    rw [Readership.ended, beq_iff_eq, h.handles]
  cases t with
  | publish e =>
      dsimp only [see, Readership.see]
      simp only [hended]
      split
      next => exact h
      next hlive =>
        refine shows_write h hcapacity (hkept.closed.trans ?_) e _
        rw [← hended] at hlive
        exact Bool.eq_false_iff.mpr hlive
  | subscribe =>
      dsimp only [see, Readership.see]
      simp only [hended]
      split
      next => exact h
      next =>
        refine ⟨h.size, h.tail, ?_, h.handles, h.slots⟩
        dsimp only [Bus.subscribe]
        rw [h.cursors, h.tail]
  | clone =>
      dsimp only [see, Readership.see]
      simp only [hended]
      split
      next => exact h
      next => exact ⟨h.size, h.tail, h.cursors, congrArg (· + 1) h.handles, h.slots⟩
  | drop =>
      dsimp only [see, Readership.see]
      split
      next => exact ⟨h.size, h.tail, h.cursors, congrArg (· - 1) h.handles, h.slots⟩
      next => exact ⟨h.size, h.tail, h.cursors, congrArg (· - 1) h.handles, h.slots⟩
  | unsubscribe r =>
      refine ⟨h.size, h.tail, ?_, h.handles, h.slots⟩
      exact congrArg (List.set · r none) h.cursors
  | receive r =>
      rcases Readership.receive_frame a.bus r with ⟨hcap, hlog, _⟩
      dsimp only [see, Readership.see]
      rw [(receive_eq h hkept hcapacity r).2]
      refine ⟨h.size.trans hcap.symm, h.tail.trans (congrArg Array.size hlog.symm), rfl, h.handles,
        ?_⟩
      rw [hlog]
      exact h.slots

/-- The ring keeps the window, whatever is done. -/
theorem shows_after (h : ring.Shows a) (hkept : a.Kept) (hcapacity : 0 < a.bus.capacity)
    (turns : List BusTurn) : (ring.after turns).Shows (a.after turns) := by
  induction turns generalizing ring a with
  | nil => exact h
  | cons t rest ih =>
      refine ih (shows_see h hkept hcapacity t) (Readership.kept_see hkept t) ?_
      rw [Readership.capacity_see]
      exact hcapacity

end Ring

/-- A bus for `n` entries retains the least power of two that is at least `n`
    and one. Whatever is done to it, a ring of that many slots would answer the
    same. And a receiver gets what was published since it subscribed, in order:
    what it got so far, events and lags, adds up to how far it is. It gets the
    event there, if that is retained, or else is told once how many were
    overwritten, and goes on with the oldest one retained. It gets nothing only
    if there is nothing. So none of the last events, as many as the capacity, is
    lost to a receiver: it has got it, or still can, also when the bus is
    closed. What it gets depends on these events and the moments at which it
    asks, and the other receivers may as well not do anything. -/
theorem log_seen_through_window (n : Nat) (hn : n ≤ Bus.maxCapacity) (turns : List BusTurn) :
    ∃ bus, Bus.ofCapacity? n = some bus ∧
      let c := bus.capacity
      let run := (Readership.start bus).after turns
      let ring := (Ring.start c).after turns
      ((∃ k, c = 2 ^ k) ∧ max n 1 ≤ c ∧ ∀ k, n ≤ 2 ^ k → c ≤ 2 ^ k) ∧
      (∀ r, (ring.receive r).1 = (run.bus.receive r).1) ∧
      run.readers.length = run.bus.receivers.length ∧
      ∀ r reader, run.readers[r]? = some reader →
        (reader.since <+: run.bus.log.toList.drop reader.joined ∧
          (reader.left = false → reader.since = run.bus.log.toList.drop reader.joined)) ∧
        (∀ before x behind, reader.receipts = before ++ x :: behind →
          x.Due c reader.since (progress before) ∧
          ∀ e, x.got = .event e → run.bus.log.toList[reader.joined + progress before]? = some e) ∧
        (∀ before x m y behind, reader.receipts = before ++ x :: y :: behind →
          x.got = .lagged m → y.published = x.published →
          ∃ e, y.got = .event e ∧ reader.since[x.published - c]? = some e) ∧
        (∀ i, i < progress reader.receipts → reader.since.length ≤ i + c →
          ∃ before x behind e, reader.receipts = before ++ x :: behind ∧ progress before = i ∧
            x.got = .event e ∧ reader.since[i]? = some e) ∧
        (reader.left = false → ∀ b ∈ [run.bus, run.bus.close],
          let reached := progress reader.receipts
          let published := reader.since.length
          (b.drain r).1
            = (if reached + c < published then [.lagged (published - c - reached)] else [])
              ++ (reader.since.drop (max reached (published - c))).map .event) ∧
        (∀ (turns' : List BusTurn) (r' : Nat) (other : Reader),
          ((Readership.start bus).after turns').readers[r']? = some other →
          other.since = reader.since →
          other.receipts.map Receipt.moment = reader.receipts.map Receipt.moment →
          other.receipts = reader.receipts) ∧
        ∃ alone, ((Readership.start bus).after (turns.filter (BusTurn.concerns r))).readers[r]?
            = some alone ∧
          alone.since = reader.since ∧ alone.receipts = reader.receipts := by
  refine ⟨{ capacity := Bus.window n }, if_pos hn, ?_⟩
  intro c run ring
  have hpos : 0 < c := Bus.window_pos n
  have hcapacity : run.bus.capacity = c := Readership.capacity_after _ turns
  have hrun : run.Kept := Readership.kept_after (Readership.kept_start c) turns
  refine ⟨?_, fun r => ?_, hrun.places, fun r reader hreader => ?_⟩
  · rcases Bus.window_least n with ⟨k, hk, hle, hleast⟩
    exact ⟨⟨k, hk⟩, hle, hleast⟩
  · have hshows := Ring.shows_after (Ring.shows_start c) (Readership.kept_start c) hpos turns
    exact (Ring.receive_eq hshows hrun (hcapacity.symm ▸ hpos) r).1
  have hfor := hrun.readers r reader hreader
  have hserved := Readership.served_after c turns hreader
  -- What was published and when it asked settles what a receiver got, so two that
  -- agree on these agree.
  have hunique : ∀ (turns' : List BusTurn) (r' : Nat) (other : Reader),
      ((Readership.start { capacity := c }).after turns').readers[r']? = some other →
      other.since = reader.since →
      other.receipts.map Receipt.moment = reader.receipts.map Receipt.moment →
      other.receipts = reader.receipts :=
    fun turns' _ _ hother => (Readership.served_after c turns' hother).unique hserved
  refine ⟨⟨hfor.recorded, fun hhere => (hfor.stands hhere).2.1⟩, ?_, ?_,
    fun i => hserved.delivered, ?_, hunique, ?_⟩
  · exact fun before x behind hsplit => ⟨(hserved before x behind hsplit).1,
      fun e hgot => hfor.logged hsplit hgot⟩
  · intro before x m y behind hsplit hlag hsame
    have hy := (hserved (before ++ [x]) y behind (by rw [hsplit, List.append_assoc]; rfl)).1
    rw [progress_concat] at hy
    exact (hserved _ _ _ hsplit).1.followed hpos hlag hy hsame
  · intro hhere b hb reached published
    have hsame : b.capacity = run.bus.capacity ∧ b.log = run.bus.log ∧
        b.receivers = run.bus.receivers := by
      rcases List.mem_pair.mp hb with rfl | rfl
      · exact ⟨rfl, rfl, rfl⟩
      · exact ⟨rfl, rfl, rfl⟩
    have hdrain := hfor.drained hhere hsame.1 hsame.2.1 hsame.2.2
    rwa [hsame.1.trans hcapacity] at hdrain
  · -- Without the turns of others the same is published and asked for.
    rcases Readership.alone_after c turns hreader with ⟨alone, halone, hsince, hmoments⟩
    exact ⟨alone, halone, hsince, hunique _ r alone halone hsince hmoments⟩

/-- A line of output. -/
def outputLine (number : Nat) : Event :=
  ⟨number, { kind := .compileOutput }⟩

/-- Five lines are published before the first receiver asks. A second one
    leaves early, and the last handle is dropped before everything is read. -/
def overrun : List BusTurn :=
  [.subscribe, .publish (outputLine 0), .subscribe, .clone, .publish (outputLine 1), .receive 1,
    .publish (outputLine 2), .unsubscribe 1, .publish (outputLine 3), .publish (outputLine 4),
    .receive 0, .receive 0, .drop, .drop, .receive 0, .receive 0]

theorem log_seen_through_window_overrun :
    2 ≤ Bus.maxCapacity ∧ ∃ bus reader, Bus.ofCapacity? 2 = some bus ∧
      ((Readership.start bus).after overrun).readers[0]? = some reader ∧
      reader.receipts = [⟨5, false, .lagged 3⟩, ⟨5, false, .event (outputLine 3)⟩,
        ⟨5, true, .event (outputLine 4)⟩, ⟨5, true, .closed⟩] ∧
      ∀ before x behind, reader.receipts = before ++ x :: behind →
        x.Due bus.capacity reader.since (progress before) := by
  rcases log_seen_through_window 2 (by decide) overrun with ⟨bus, hbus, _, _, _, hreaders⟩
  have htwo : ({ capacity := 2 } : Bus) = bus := Option.some.inj hbus
  subst htwo
  refine ⟨by decide, _, _, hbus, rfl, rfl, ?_⟩
  exact fun before x behind hsplit => ((hreaders 0 _ rfl).2.1 before x behind hsplit).1

end SoftPlc
