import SoftPlc.Proofs.Bus.Readers

/-!
# Receivers apart from each other

What is due to a receiver depends on what was published since it subscribed and
on the moments at which it asks. Nothing of that is in the hands of another
receiver. The log itself is not as free of them: an event that is published
while nobody listens is not recorded, so that a receiver which leaves may change
where the next one joins. The comparison is therefore not of positions but of
sketches, which leave out where a reader joined and what it got, and what it got
then follows from what is due.

## Main definitions

* `BusTurn.concerns`: A turn of a given receiver or of none.
* `Reader.sketch`: What is noted of a receiver, but for where it stands.
* `Readership.Alike`: As much has been done by and to one receiver.

## Theorems

* `Readership.alike_after`: Turns of others can be left out.
* `Readership.alone_after`: What is noted of a receiver that is alone.
-/

namespace SoftPlc

/-- Whether a turn is one of a given receiver or of none. -/
def BusTurn.concerns (r : Nat) : BusTurn → Bool
  | unsubscribe i => i == r
  | receive i => i == r
  | _ => true

/-- What is noted of a receiver, but for where it stands and what it got. -/
def Reader.sketch (reader : Reader) : Bool × List Event × List (Nat × Bool) :=
  (reader.left, reader.since, reader.receipts.map Receipt.moment)

namespace Readership

variable {a b : Readership} {r : Nat}

/-- Two readerships in which as much has been done by and to one receiver. -/
structure Alike (r : Nat) (a b : Readership) : Prop where
  handles : a.handles = b.handles
  places : a.readers.length = b.readers.length
  sketch : (a.readers[r]?).map Reader.sketch = (b.readers[r]?).map Reader.sketch

theorem sketch_hear (e : Event) (reader : Reader) :
    (reader.hear e).sketch
      = (reader.left, if reader.left then reader.since else reader.since ++ [e],
          reader.receipts.map Receipt.moment) := by
  unfold Reader.hear
  split
  next => rfl
  next => rfl

theorem sketch_ask (ended : Bool) (got : Received) (reader : Reader) :
    (reader.ask ended got).sketch
      = (reader.left, reader.since, if reader.left then reader.receipts.map Receipt.moment
          else reader.receipts.map Receipt.moment ++ [(reader.since.length, ended)]) := by
  unfold Reader.ask
  split
  next => rfl
  next => rw [Reader.sketch, List.map_append]; rfl

/-- What is noted of each reader depends on what was noted of it before. -/
theorem sketch_map {xs ys : List Reader} {f g : Reader → Reader}
    (hfg : ∀ x y, x.sketch = y.sketch → (f x).sketch = (g y).sketch)
    (h : (xs[r]?).map Reader.sketch = (ys[r]?).map Reader.sketch) :
    ((xs[r]?).map f).map Reader.sketch = ((ys[r]?).map g).map Reader.sketch := by
  cases hx : xs[r]? with
  | none =>
      rw [hx] at h
      rw [Option.map_eq_none_iff.mp h.symm]
      rfl
  | some x =>
      rw [hx] at h
      rcases Option.map_eq_some_iff.mp h.symm with ⟨y, hy, hsketch⟩
      rw [hy]
      exact congrArg some (hfg x y hsketch.symm)

theorem alike_see (h : Alike r a b) (t : BusTurn) : Alike r (a.see t) (b.see t) := by
  have hended : a.ended = b.ended := congrArg (· == 0) h.handles
  -- A sketch leaves out what was received and keeps all that decides about it.
  have hparts : ∀ x y : Reader, x.sketch = y.sketch →
      x.left = y.left ∧ x.since = y.since ∧
        x.receipts.map Receipt.moment = y.receipts.map Receipt.moment := by
    intro x y hsketch
    rcases Prod.mk.inj hsketch with ⟨hleft, hrest⟩
    exact ⟨hleft, Prod.mk.inj hrest⟩
  cases t with
  | publish e =>
      dsimp only [see]
      rw [hended]
      split
      next => exact h
      next =>
        refine ⟨h.handles, by rw [List.length_map, List.length_map, h.places], ?_⟩
        rw [List.getElem?_map, List.getElem?_map]
        refine sketch_map (fun x y hsketch => ?_) h.sketch
        rcases hparts x y hsketch with ⟨hleft, hsince, hmoments⟩
        rw [sketch_hear, sketch_hear, hleft, hsince, hmoments]
  | subscribe =>
      dsimp only [see]
      rw [hended]
      split
      next => exact h
      next =>
        refine ⟨h.handles, by rw [List.length_append, List.length_append, h.places]; rfl, ?_⟩
        rcases Nat.lt_or_ge r a.readers.length with hr | hr
        · rw [List.getElem?_append_left hr, List.getElem?_append_left (h.places ▸ hr)]
          exact h.sketch
        · rw [List.getElem?_append_right hr, List.getElem?_append_right (h.places ▸ hr), h.places]
          cases hn : r - b.readers.length with
          | zero => rfl
          | succ n => rfl
  | clone =>
      dsimp only [see]
      rw [hended]
      split
      next => exact h
      next => exact ⟨congrArg (· + 1) h.handles, h.places, h.sketch⟩
  | drop => exact ⟨congrArg (· - 1) h.handles, h.places, h.sketch⟩
  | unsubscribe i =>
      refine ⟨h.handles, by simp only [see, List.length_modify, h.places], ?_⟩
      dsimp only [see]
      rw [List.getElem?_modify, List.getElem?_modify]
      refine sketch_map (fun x y hsketch => ?_) h.sketch
      split
      next =>
        rcases hparts x y hsketch with ⟨_, hsince, hmoments⟩
        exact congrArg (Prod.mk true) (Prod.mk.injEq _ _ _ _ ▸ ⟨hsince, hmoments⟩)
      next => exact hsketch
  | receive i =>
      refine ⟨h.handles, by simp only [see, List.length_modify, h.places], ?_⟩
      dsimp only [see]
      rw [List.getElem?_modify, List.getElem?_modify, hended]
      refine sketch_map (fun x y hsketch => ?_) h.sketch
      split
      next =>
        rcases hparts x y hsketch with ⟨hleft, hsince, hmoments⟩
        rw [sketch_ask, sketch_ask, hleft, hsince, hmoments]
      next => exact hsketch

/-- A turn of another receiver is not seen. -/
theorem alike_aside (h : Alike r a b) {t : BusTurn} (ht : t.concerns r = false) :
    Alike r (a.see t) b := by
  have hother : ∀ (i : Nat) (f : Reader → Reader), (i == r) = false →
      (a.readers.modify i f)[r]? = a.readers[r]? := fun i f hi =>
    List.getElem?_modify_ne f _ (beq_eq_false_iff_ne.mp hi)
  cases t with
  | unsubscribe i =>
      refine ⟨h.handles, (List.length_modify _ _ _).trans h.places, ?_⟩
      dsimp only [see]
      rw [hother i _ ht]
      exact h.sketch
  | receive i =>
      refine ⟨h.handles, (List.length_modify _ _ _).trans h.places, ?_⟩
      dsimp only [see]
      rw [hother i _ ht]
      exact h.sketch
  | publish e => exact absurd ht Bool.noConfusion
  | subscribe => exact absurd ht Bool.noConfusion
  | clone => exact absurd ht Bool.noConfusion
  | drop => exact absurd ht Bool.noConfusion

/-- The other receivers may as well not have done anything: as much is noted
    of one receiver, except for what it got. -/
theorem alike_after (h : Alike r a b) (turns : List BusTurn) :
    Alike r (a.after turns) (b.after (turns.filter (BusTurn.concerns r))) := by
  induction turns generalizing a b with
  | nil => exact h
  | cons t rest ih =>
      cases ht : t.concerns r with
      | true =>
          rw [List.filter_cons_of_pos ht]
          exact ih (alike_see h t)
      | false =>
          rw [List.filter_cons_of_neg (by rw [ht]; exact Bool.noConfusion)]
          exact ih (alike_aside h ht)

/-- What is noted of a receiver if the others do not do anything. -/
theorem alone_after (capacity : Nat) (turns : List BusTurn) {reader : Reader}
    (h : ((start { capacity }).after turns).readers[r]? = some reader) :
    ∃ alone, ((start { capacity }).after (turns.filter (BusTurn.concerns r))).readers[r]?
        = some alone ∧
      alone.since = reader.since ∧
      alone.receipts.map Receipt.moment = reader.receipts.map Receipt.moment := by
  have halike : Alike r (start { capacity }) (start { capacity }) := ⟨rfl, rfl, rfl⟩
  have hsketch := (alike_after halike turns).sketch
  rw [h] at hsketch
  rcases Option.map_eq_some_iff.mp hsketch.symm with ⟨alone, halone, hsame⟩
  exact ⟨alone, halone, Prod.mk.inj (Prod.mk.inj hsame).2⟩

end Readership

end SoftPlc
