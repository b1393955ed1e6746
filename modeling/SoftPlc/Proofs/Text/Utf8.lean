import SoftPlc.Text.Utf8
import Mathlib.Data.List.Basic

/-!
# The decoder reads UTF-8

The decoder is a machine that sees one byte at a time; UTF-8 is a table of the
byte strings that stand for code points. `Form` is that table, with the value
of each string beside it, and it is compared with both sides. Encoding a
character gives a form of its value, and there is no other form of that value;
and the machine, fed with a form, ends with the character of its value.

For the way back the machine has to be caught between two bytes. What it has
read of an unfinished code point is sound if every continuation within the
bounds it keeps completes it to a form. So a finished code point was a form,
and no byte is lost in either kind of piece: `flatMap_pieces`.

A byte that is a code point alone is never within those bounds. It ends
whatever was being read, so that what stands behind it is read as if it came
first. For the same reason it stands in a text only where its character does:
who looks for a newline may look at bytes or at characters.

## Main definitions

* `Form`: The byte strings of code points, with their values.
* `Unfinished.Sound`: Every continuation within bounds completes a form.
* `Piece.bytes`: The bytes a piece stands for.
* `Decoder.Guarded`: An ASCII byte is no continuation.

## Theorems

* `encode_of_form`, `form_encode`: Forms are what characters encode to.
* `flatMap_pieces`: Cutting into pieces loses nothing.
* `decode?_eq_some_iff`, `decode?_eq_none_iff`: What is text, and which.
* `encode_eq`, `decode?_encode`: A text is read back from its bytes.
* `mem_encode_ascii`, `decode?_concat_ascii`: Where a text has an ASCII byte.
* `pieces_append_ascii`: What stands behind an ASCII byte is cut on its own.
-/

namespace SoftPlc.Text

/-- The bytes that a piece stands for. -/
def Piece.bytes : Piece → List UInt8
  | char c => String.utf8EncodeChar c
  | stray bytes => bytes

namespace Utf8

/-- A byte string that stands for a code point, and the value of that. -/
inductive Form : List UInt8 → Nat → Prop
  | one {b : UInt8} (hb : b < 0x80) : Form [b] b.toNat
  | two {b c : UInt8} (hb : 0xC2 ≤ b ∧ b < 0xE0) (hc : 0x80 ≤ c ∧ c ≤ 0xBF) :
      Form [b, c] (b.toNat % 32 * 64 + c.toNat % 64)
  | three {b c d : UInt8} (hb : 0xE0 ≤ b ∧ b < 0xF0)
      (hc : (if b = 0xE0 then 0xA0 else 0x80) ≤ c ∧ c ≤ if b = 0xED then 0x9F else 0xBF)
      (hd : 0x80 ≤ d ∧ d ≤ 0xBF) :
      Form [b, c, d] ((b.toNat % 16 * 64 + c.toNat % 64) * 64 + d.toNat % 64)
  | four {b c d e : UInt8} (hb : 0xF0 ≤ b ∧ b ≤ 0xF4)
      (hc : (if b = 0xF0 then 0x90 else 0x80) ≤ c ∧ c ≤ if b = 0xF4 then 0x8F else 0xBF)
      (hd : 0x80 ≤ d ∧ d ≤ 0xBF) (he : 0x80 ≤ e ∧ e ≤ 0xBF) :
      Form [b, c, d, e]
        (((b.toNat % 8 * 64 + c.toNat % 64) * 64 + d.toNat % 64) * 64 + e.toNat % 64)

theorem second_low {b c x low : UInt8} (hlow : 0x80 ≤ low) :
    (if b = x then low else 0x80) ≤ c ↔
      (b.toNat = x.toNat → low.toNat ≤ c.toNat) ∧ 0x80 ≤ c.toNat := by
  have h80 : 0x80 ≤ low.toNat := UInt8.le_iff_toNat_le.mp hlow
  rw [UInt8.toNat_inj]
  by_cases hx : b = x
  · rw [if_pos hx, UInt8.le_iff_toNat_le]
    exact ⟨fun h => ⟨fun _ => h, by omega⟩, fun h => h.1 hx⟩
  · rw [if_neg hx, UInt8.le_iff_toNat_le]
    exact ⟨fun h => ⟨fun hx' => absurd hx' hx, h⟩, fun h => h.2⟩

theorem second_high {b c y high : UInt8} (hhigh : high ≤ 0xBF) :
    (c ≤ if b = y then high else 0xBF) ↔
      (b.toNat = y.toNat → c.toNat ≤ high.toNat) ∧ c.toNat ≤ 0xBF := by
  have hBF : high.toNat ≤ 0xBF := UInt8.le_iff_toNat_le.mp hhigh
  rw [UInt8.toNat_inj]
  by_cases hy : b = y
  · rw [if_pos hy, UInt8.le_iff_toNat_le]
    exact ⟨fun h => ⟨fun _ => h, by omega⟩, fun h => h.1 hy⟩
  · rw [if_neg hy, UInt8.le_iff_toNat_le]
    exact ⟨fun h => ⟨fun hy' => absurd hy' hy, h⟩, fun h => h.2⟩

theorem val_ofNat {v : Nat} (h : v.isValidChar) : (Char.ofNat v).val.toNat = v := by
  rw [Char.ofNat, dif_pos h]
  rfl

/-- Forms are what characters are encoded to: each is the encoding of its
    value. -/
theorem encode_of_form {bytes : List UInt8} {v : Nat} (h : Form bytes v) :
    String.utf8EncodeChar (Char.ofNat v) = bytes := by
  cases h with
  | @one b hb =>
      simp only [UInt8.lt_iff_toNat_lt, UInt8.reduceToNat] at hb
      have hval := val_ofNat (v := b.toNat) (.inl (by omega))
      unfold String.utf8EncodeChar
      rw [hval, if_pos (by omega), UInt8.ofNat_toNat]
  | @two b c hb hc =>
      simp only [UInt8.le_iff_toNat_le, UInt8.lt_iff_toNat_lt, UInt8.reduceToNat] at hb hc
      have hval := val_ofNat (v := b.toNat % 32 * 64 + c.toNat % 64) (.inl (by omega))
      unfold String.utf8EncodeChar
      rw [hval, if_neg (by omega), if_pos (by omega)]
      simp only [List.cons.injEq, ← UInt8.toNat_inj, UInt8.toNat_ofNat', and_true]
      omega
  | @three b c d hb hc hd =>
      -- The second byte excludes overlong forms after 0xE0 and surrogates after 0xED.
      rw [second_low (by decide), second_high (by decide)] at hc
      simp only [UInt8.le_iff_toNat_le, UInt8.lt_iff_toNat_lt, UInt8.reduceToNat] at hb hc hd
      have hval := val_ofNat (v := (b.toNat % 16 * 64 + c.toNat % 64) * 64 + d.toNat % 64)
        (by unfold Nat.isValidChar; omega)
      unfold String.utf8EncodeChar
      rw [hval, if_neg (by omega), if_neg (by omega), if_pos (by omega)]
      simp only [List.cons.injEq, ← UInt8.toNat_inj, UInt8.toNat_ofNat', and_true]
      omega
  | @four b c d e hb hc hd he =>
      -- Here it excludes overlong forms and what is past the last plane.
      rw [second_low (by decide), second_high (by decide)] at hc
      simp only [UInt8.le_iff_toNat_le, UInt8.reduceToNat] at hb hc hd he
      have hval := val_ofNat
        (v := ((b.toNat % 8 * 64 + c.toNat % 64) * 64 + d.toNat % 64) * 64 + e.toNat % 64)
        (by unfold Nat.isValidChar; omega)
      unfold String.utf8EncodeChar
      rw [hval, if_neg (by omega), if_neg (by omega), if_neg (by omega)]
      simp only [List.cons.injEq, ← UInt8.toNat_inj, UInt8.toNat_ofNat', and_true]
      omega

theorem toNat_of_eq_ofNat {b : UInt8} {n : Nat} (hb : UInt8.ofNat n = b) (hn : n < 256) :
    b.toNat = n := by
  rw [← hb, UInt8.toNat_ofNat']
  omega

/-- Every character is encoded to a form, and to one of its value. -/
theorem form_encode (c : Char) : Form (String.utf8EncodeChar c) c.val.toNat := by
  have hvalid : c.val.toNat < 0xD800 ∨ 0xDFFF < c.val.toNat ∧ c.val.toNat < 0x110000 := c.valid
  unfold String.utf8EncodeChar
  dsimp only
  -- From here only the bounds of a character matter.
  generalize c.val.toNat = v at hvalid
  by_cases h1 : v ≤ 0x7F
  · rw [if_pos h1]
    generalize hb : UInt8.ofNat v = b
    replace hb := toNat_of_eq_ofNat hb (by omega)
    have hform := Form.one (b := b)
    simp only [UInt8.lt_iff_toNat_lt, UInt8.reduceToNat, hb] at hform
    exact hform (by omega)
  · rw [if_neg h1]
    by_cases h2 : v ≤ 0x7FF
    · rw [if_pos h2]
      generalize hb : UInt8.ofNat (v / 64 % 0x20 + 0xC0) = b
      generalize hc : UInt8.ofNat (v % 0x40 + 0x80) = c
      replace hb := toNat_of_eq_ofNat hb (by omega)
      replace hc := toNat_of_eq_ofNat hc (by omega)
      have hform := Form.two (b := b) (c := c)
      simp only [UInt8.le_iff_toNat_le, UInt8.lt_iff_toNat_lt, UInt8.reduceToNat] at hform
      have hv : b.toNat % 32 * 64 + c.toNat % 64 = v := by omega
      rw [hv] at hform
      exact hform (by omega) (by omega)
    · rw [if_neg h2]
      by_cases h3 : v ≤ 0xFFFF
      · rw [if_pos h3]
        generalize hb : UInt8.ofNat (v / 4096 % 0x10 + 0xE0) = b
        generalize hc : UInt8.ofNat (v / 64 % 0x40 + 0x80) = c
        generalize hd : UInt8.ofNat (v % 0x40 + 0x80) = d
        replace hb := toNat_of_eq_ofNat hb (by omega)
        replace hc := toNat_of_eq_ofNat hc (by omega)
        replace hd := toNat_of_eq_ofNat hd (by omega)
        have hform := Form.three (b := b) (c := c) (d := d)
        rw [second_low (by decide), second_high (by decide)] at hform
        simp only [UInt8.le_iff_toNat_le, UInt8.lt_iff_toNat_lt, UInt8.reduceToNat] at hform
        have hv : (b.toNat % 16 * 64 + c.toNat % 64) * 64 + d.toNat % 64 = v := by omega
        rw [hv] at hform
        exact hform (by omega) (by omega) (by omega)
      · rw [if_neg h3]
        generalize hb : UInt8.ofNat (v / 262144 % 0x08 + 0xF0) = b
        generalize hc : UInt8.ofNat (v / 4096 % 0x40 + 0x80) = c
        generalize hd : UInt8.ofNat (v / 64 % 0x40 + 0x80) = d
        generalize he : UInt8.ofNat (v % 0x40 + 0x80) = e
        replace hb := toNat_of_eq_ofNat hb (by omega)
        replace hc := toNat_of_eq_ofNat hc (by omega)
        replace hd := toNat_of_eq_ofNat hd (by omega)
        replace he := toNat_of_eq_ofNat he (by omega)
        have hform := Form.four (b := b) (c := c) (d := d) (e := e)
        rw [second_low (by decide), second_high (by decide)] at hform
        simp only [UInt8.le_iff_toNat_le, UInt8.reduceToNat] at hform
        have hv : ((b.toNat % 8 * 64 + c.toNat % 64) * 64 + d.toNat % 64) * 64 + e.toNat % 64
            = v := by omega
        rw [hv] at hform
        exact hform (by omega) (by omega) (by omega) (by omega)

theorem announced_two {b : UInt8} (hb : 0xC2 ≤ b ∧ b < 0xE0) :
    announced b = some ⟨[b], 1, 0x80, 0xBF, b.toNat % 32⟩ := by
  unfold announced
  rw [if_neg (UInt8.not_lt.mpr hb.1), if_pos hb.2]

theorem announced_three {b : UInt8} (hb : 0xE0 ≤ b ∧ b < 0xF0) :
    announced b = some ⟨[b], 2, if b = 0xE0 then 0xA0 else 0x80, if b = 0xED then 0x9F else 0xBF,
      b.toNat % 16⟩ := by
  have hC2 : ¬ b < 0xC2 := UInt8.not_lt.mpr (UInt8.le_trans (by decide) hb.1)
  unfold announced
  rw [if_neg hC2, if_neg (UInt8.not_lt.mpr hb.1)]
  by_cases hE0 : b = 0xE0
  · subst hE0
    rfl
  · by_cases hED : b = 0xED
    · subst hED
      rfl
    · rw [if_neg hE0, if_neg hED, if_pos hb.2, if_neg hE0, if_neg hED]

theorem announced_four {b : UInt8} (hb : 0xF0 ≤ b ∧ b ≤ 0xF4) :
    announced b = some ⟨[b], 3, if b = 0xF0 then 0x90 else 0x80, if b = 0xF4 then 0x8F else 0xBF,
      b.toNat % 8⟩ := by
  have hC2 : ¬ b < 0xC2 := UInt8.not_lt.mpr (UInt8.le_trans (by decide) hb.1)
  have hlt : ¬ b < 0xE0 := UInt8.not_lt.mpr (UInt8.le_trans (by decide) hb.1)
  have hE0 : b ≠ 0xE0 := fun h => absurd (h ▸ hb.1) (by decide)
  have hED : b ≠ 0xED := fun h => absurd (h ▸ hb.1) (by decide)
  unfold announced
  rw [if_neg hC2, if_neg hlt, if_neg hE0, if_neg hED, if_neg (UInt8.not_lt.mpr hb.1)]
  by_cases hF0 : b = 0xF0
  · subst hF0
    rfl
  · by_cases hF4 : b = 0xF4
    · subst hF4
      rfl
    · have hlt' : b < 0xF4 := UInt8.lt_of_le_of_ne hb.2 hF4
      rw [if_neg hF0, if_pos hlt', if_neg hF0, if_neg hF4]

/-- A byte announces what begins with it in the table, or nothing. -/
theorem announced_cases {b : UInt8} {u : Unfinished} (h : announced b = some u) :
    (0xC2 ≤ b ∧ b < 0xE0) ∨ (0xE0 ≤ b ∧ b < 0xF0) ∨ (0xF0 ≤ b ∧ b ≤ 0xF4) := by
  simp only [UInt8.le_iff_toNat_le, UInt8.lt_iff_toNat_lt, UInt8.reduceToNat]
  by_cases hlow : b.toNat < 0xC2
  · rw [announced, if_pos (UInt8.lt_iff_toNat_lt.mpr hlow)] at h
    exact absurd h (by simp only [reduceCtorEq, not_false_eq_true])
  · by_cases hhigh : 0xF4 < b.toNat
    · -- No comparison with a smaller byte succeeds.
      have hlt : ∀ c : UInt8, c.toNat ≤ 0xF4 → ¬ b < c := by
        intro c hc hb
        rw [UInt8.lt_iff_toNat_lt] at hb
        omega
      have hne : ∀ c : UInt8, c.toNat ≤ 0xF4 → b ≠ c := by
        intro c hc hb
        rw [← hb] at hc
        omega
      rw [announced, if_neg (hlt _ (by decide)), if_neg (hlt _ (by decide)),
        if_neg (hne _ (by decide)), if_neg (hne _ (by decide)), if_neg (hlt _ (by decide)),
        if_neg (hne _ (by decide)), if_neg (hlt _ (by decide)), if_neg (hne _ (by decide))] at h
      exact absurd h (by simp only [reduceCtorEq, not_false_eq_true])
    · omega

/-- The bytes that may complete what has been read. -/
def Unfinished.Allows (u : Unfinished) : List UInt8 → Prop
  | [] => True
  | b :: rest => (u.low ≤ b ∧ b ≤ u.high) ∧ ∀ c ∈ rest, 0x80 ≤ c ∧ c ≤ 0xBF

/-- The value after further bytes. -/
def Unfinished.total (u : Unfinished) (rest : List UInt8) : Nat :=
  rest.foldl (fun value b => value * 64 + b.toNat % 64) u.value

/-- Every continuation within bounds completes a form. -/
structure Unfinished.Sound (u : Unfinished) : Prop where
  missing : 1 ≤ u.missing
  completes : ∀ rest, rest.length = u.missing → u.Allows rest →
    Form (u.bytes.reverse ++ rest) (u.total rest)

theorem sound_announced {b : UInt8} {u : Unfinished} (h : announced b = some u) : u.Sound := by
  rcases announced_cases h with hb | hb | hb
  · rw [announced_two hb] at h
    rcases Option.some.inj h with rfl
    refine ⟨Nat.le_refl 1, fun rest hlen hall => ?_⟩
    rcases List.length_eq_one_iff.mp hlen with ⟨c, rfl⟩
    exact .two hb hall.1
  · rw [announced_three hb] at h
    rcases Option.some.inj h with rfl
    refine ⟨Nat.le_add_left 1 1, fun rest hlen hall => ?_⟩
    rcases List.length_eq_two.mp hlen with ⟨c, d, rfl⟩
    exact .three hb hall.1 (hall.2 d (by simp))
  · rw [announced_four hb] at h
    rcases Option.some.inj h with rfl
    refine ⟨Nat.le_add_left 1 2, fun rest hlen hall => ?_⟩
    rcases List.length_eq_three.mp hlen with ⟨c, d, e, rfl⟩
    exact .four hb hall.1 (hall.2 d (by simp)) (hall.2 e (by simp))

namespace Decoder

theorem first_ascii (d : Decoder) {b : UInt8} (hb : b < 0x80) :
    d.first b = { done := .char (Char.ofNat b.toNat) :: d.done } := by
  rw [first, if_pos hb]

theorem first_announced (d : Decoder) {b : UInt8} {u : Unfinished} (h : announced b = some u) :
    d.first b = ⟨d.done, some u⟩ := by
  have hb : ¬ b < 0x80 := by
    have hcases := announced_cases h
    simp only [UInt8.le_iff_toNat_le, UInt8.lt_iff_toNat_lt, UInt8.reduceToNat] at hcases ⊢
    omega
  rw [first, if_neg hb, h]

theorem feed_first {d : Decoder} (hu : d.unfinished = none) (b : UInt8) :
    d.feed b = d.first b := by
  rw [feed, hu]

theorem feed_last {d : Decoder} {u : Unfinished} {b : UInt8} (hu : d.unfinished = some u)
    (hb : u.low ≤ b ∧ b ≤ u.high) (hm : u.missing ≤ 1) :
    d.feed b = { done := .char (Char.ofNat (u.value * 64 + b.toNat % 64)) :: d.done } := by
  rw [feed, hu]
  dsimp only
  rw [if_pos hb, if_pos hm]

theorem feed_more {d : Decoder} {u : Unfinished} {b : UInt8} (hu : d.unfinished = some u)
    (hb : u.low ≤ b ∧ b ≤ u.high) (hm : 1 < u.missing) :
    d.feed b = ⟨d.done,
      some ⟨b :: u.bytes, u.missing - 1, 0x80, 0xBF, u.value * 64 + b.toNat % 64⟩⟩ := by
  rw [feed, hu]
  dsimp only
  rw [if_pos hb, if_neg (Nat.not_le.mpr hm)]

/-- A form is read as the character of its value. -/
theorem foldl_form {bytes : List UInt8} {v : Nat} (h : Form bytes v) (done : List Piece) :
    bytes.foldl feed { done } = { done := .char (Char.ofNat v) :: done } := by
  have hfirst : ∀ {b u}, announced b = some u → feed { done } b = ⟨done, some u⟩ :=
    fun ha => (feed_first rfl _).trans (first_announced { done } ha)
  cases h with
  | one hb => exact (feed_first rfl _).trans (first_ascii { done } hb)
  | two hb hc =>
      rw [List.foldl_cons, hfirst (announced_two hb), List.foldl_cons,
        feed_last rfl hc (Nat.le_refl 1)]
      rfl
  | three hb hc hd =>
      rw [List.foldl_cons, hfirst (announced_three hb), List.foldl_cons,
        feed_more rfl hc (show 1 < 2 by decide), List.foldl_cons, feed_last rfl hd (Nat.le_refl 1)]
      rfl
  | four hb hc hd he =>
      rw [List.foldl_cons, hfirst (announced_four hb), List.foldl_cons,
        feed_more rfl hc (show 1 < 3 by decide), List.foldl_cons,
        feed_more rfl hd (show 1 < 2 by decide), List.foldl_cons,
        feed_last rfl he (Nat.le_refl 1)]
      rfl

/-- The decoder has kept every byte that it has read. -/
structure Kept (d : Decoder) (bytes : List UInt8) : Prop where
  sound : ∀ u, d.unfinished = some u → u.Sound
  bytes : d.done.reverse.flatMap Piece.bytes ++
    (d.unfinished.elim [] fun u => u.bytes.reverse) = bytes

theorem kept_close {d : Decoder} {bytes : List UInt8} (h : d.Kept bytes) :
    d.close.Kept bytes ∧ d.close.unfinished = none := by
  unfold close
  rcases hu : d.unfinished with _ | u
  · exact ⟨h, hu⟩
  · refine ⟨⟨fun _ hno => absurd hno (by simp only [reduceCtorEq, not_false_eq_true]), ?_⟩, rfl⟩
    have hbytes := h.bytes
    rw [hu] at hbytes
    simpa [Piece.bytes] using hbytes

theorem kept_first {d : Decoder} {bytes : List UInt8} (h : d.Kept bytes)
    (hu : d.unfinished = none) (b : UInt8) : (d.first b).Kept (bytes ++ [b]) := by
  have hbytes := h.bytes
  rw [hu] at hbytes
  by_cases hb : b < 0x80
  · rw [first_ascii d hb]
    refine ⟨fun _ hno => absurd hno (by simp only [reduceCtorEq, not_false_eq_true]), ?_⟩
    rw [← hbytes]
    simp [Piece.bytes, encode_of_form (.one hb)]
  · rcases ha : announced b with _ | u
    · rw [first, if_neg hb, ha]
      refine ⟨fun _ hno => absurd hno (by simp only [reduceCtorEq, not_false_eq_true]), ?_⟩
      rw [← hbytes]
      simp [Piece.bytes]
    · rw [first_announced d ha]
      refine ⟨fun v hv => Option.some.inj hv ▸ sound_announced ha, ?_⟩
      have hself : u.bytes = [b] := by
        rcases announced_cases ha with hcase | hcase | hcase
        · rw [announced_two hcase] at ha
          exact (congrArg Unfinished.bytes (Option.some.inj ha)).symm
        · rw [announced_three hcase] at ha
          exact (congrArg Unfinished.bytes (Option.some.inj ha)).symm
        · rw [announced_four hcase] at ha
          exact (congrArg Unfinished.bytes (Option.some.inj ha)).symm
      rw [← hbytes]
      simp [hself]

/-- A continuation within bounds completes a form, or is one byte nearer to
    that; any other byte is read again after what was unfinished. -/
theorem kept_feed {d : Decoder} {bytes : List UInt8} (h : d.Kept bytes) (b : UInt8) :
    (d.feed b).Kept (bytes ++ [b]) := by
  rcases hu : d.unfinished with _ | u
  · rw [feed_first hu]
    exact kept_first h hu b
  · have hs := h.sound u hu
    have hbytes := h.bytes
    rw [hu] at hbytes
    by_cases hb : u.low ≤ b ∧ b ≤ u.high
    · by_cases hm : u.missing ≤ 1
      · have hform := hs.completes [b] (Nat.le_antisymm hs.missing hm) ⟨hb, by simp⟩
        rw [feed_last hu hb hm]
        refine ⟨fun _ hno => absurd hno (by simp only [reduceCtorEq, not_false_eq_true]), ?_⟩
        have hencode : String.utf8EncodeChar (Char.ofNat (u.value * 64 + b.toNat % 64))
            = u.bytes.reverse ++ [b] := encode_of_form hform
        rw [← hbytes]
        simp [Piece.bytes, hencode]
      · rw [feed_more hu hb (Nat.not_le.mp hm)]
        refine ⟨fun v hv => ?_, ?_⟩
        · rw [← Option.some.inj hv]
          refine ⟨by dsimp only; omega, fun rest hlen hall => ?_⟩
          have hrest : ∀ c ∈ rest, 0x80 ≤ c ∧ c ≤ 0xBF := by
            rcases rest with _ | ⟨c, rest⟩
            · exact fun c hc => absurd hc List.not_mem_nil
            · exact List.forall_mem_cons.mpr hall
          have hform := hs.completes (b :: rest) (by simp only [List.length_cons, hlen]; omega)
            ⟨hb, hrest⟩
          simpa [Unfinished.total] using hform
        · rw [← hbytes]
          simp
    · -- What was unfinished is replaced, and the byte is the first of something new.
      have hclose := kept_close h
      rw [feed, hu]
      dsimp only
      rw [if_neg hb]
      exact kept_first hclose.1 hclose.2 b

end Decoder

/-- Cutting into pieces loses nothing. -/
theorem flatMap_pieces (bytes : List UInt8) : (pieces bytes).flatMap Piece.bytes = bytes := by
  have hfold : ∀ (rest : List UInt8) (d : Decoder) (read : List UInt8), d.Kept read →
      (rest.foldl Decoder.feed d).Kept (read ++ rest) := by
    intro rest
    induction rest with
    | nil =>
        intro d read h
        rw [List.append_nil]
        exact h
    | cons b rest ih =>
        intro d read h
        rw [List.append_cons]
        exact ih _ _ (Decoder.kept_feed h b)
  have hstart : ({} : Decoder).Kept [] :=
    ⟨fun _ hno => absurd hno (by simp only [reduceCtorEq, not_false_eq_true]), rfl⟩
  rcases Decoder.kept_close (hfold bytes {} [] hstart) with ⟨hkept, hnone⟩
  have hbytes := hkept.bytes
  rw [hnone] at hbytes
  simpa [pieces] using hbytes

/-- A text is cut into its characters. -/
theorem pieces_encode (chars : List Char) :
    pieces (chars.flatMap String.utf8EncodeChar) = chars.map Piece.char := by
  have hfold : ∀ (chars : List Char) (done : List Piece),
      (chars.flatMap String.utf8EncodeChar).foldl Decoder.feed { done }
        = { done := (chars.map Piece.char).reverse ++ done } := by
    intro chars
    induction chars with
    | nil => exact fun done => rfl
    | cons c chars ih =>
        intro done
        have hc : Char.ofNat c.val.toNat = c := Char.ofNat_toNat c
        rw [List.flatMap_cons, List.foldl_append, Decoder.foldl_form (form_encode c), hc, ih]
        simp
  rw [pieces, hfold, Decoder.close]
  simp

/-- Bytes are decoded to the characters that they encode, if they do. -/
theorem decode?_eq_some_iff {bytes : List UInt8} {chars : List Char} :
    decode? bytes = some chars ↔ bytes = chars.flatMap String.utf8EncodeChar := by
  constructor
  · intro h
    unfold decode? at h
    dsimp only at h
    split at h
    next hall =>
      -- Pieces that are all characters are the characters decoded.
      have hchars : ∀ ps : List Piece, (ps.all fun p => (char? p).isSome) = true →
          ps = (ps.filterMap char?).map Piece.char := by
        intro ps hps
        induction ps with
        | nil => rfl
        | cons p ps ih =>
            rw [List.all_cons, Bool.and_eq_true] at hps
            cases p with
            | char c => exact congrArg (Piece.char c :: ·) (ih hps.2)
            | stray bytes => exact absurd hps.1 Bool.false_ne_true
      have hpieces := hchars _ hall
      rw [Option.some.inj h] at hpieces
      rw [← flatMap_pieces bytes, hpieces, List.flatMap_map]
      rfl
    next => exact absurd h (by simp only [reduceCtorEq, not_false_eq_true])
  · rintro rfl
    have hall : ∀ cs : List Char, ((cs.map Piece.char).all fun p => (char? p).isSome) = true := by
      intro cs
      simp [char?]
    rw [decode?, pieces_encode, if_pos (hall chars), List.filterMap_map]
    exact congrArg some (List.filterMap_some)

/-- A list of bytes is not lost in an array of them. -/
theorem toByteArray_inj {a b : List UInt8} (h : a.toByteArray = b.toByteArray) : a = b := by
  rw [← List.toList_data_toByteArray (l := a), h, List.toList_data_toByteArray]

/-- What decoding gives is encoded as the bytes that it was given for. -/
theorem decode?_ofList {bytes : List UInt8} {chars : List Char} (h : decode? bytes = some chars) :
    (String.ofList chars).toUTF8 = bytes.toByteArray := by
  rw [decode?_eq_some_iff.mp h, String.toUTF8_eq_toByteArray, String.toByteArray_ofList]
  rfl

/-- Bytes are decoded exactly if they are valid. -/
theorem decode?_eq_none_iff {bytes : List UInt8} :
    decode? bytes = none ↔ ¬ bytes.toByteArray.IsValidUTF8 := by
  constructor
  · rintro hnone ⟨chars, hchars⟩
    have hd := decode?_eq_some_iff.mpr (toByteArray_inj hchars)
    rw [hnone] at hd
    exact absurd hd (by simp only [reduceCtorEq, not_false_eq_true])
  · intro hinvalid
    rcases hd : decode? bytes with _ | chars
    · rfl
    · exact absurd ⟨chars, by rw [decode?_eq_some_iff.mp hd]; rfl⟩ hinvalid

theorem toList_loop (bytes : ByteArray) (i : Nat) (read : List UInt8) :
    ByteArray.toList.loop bytes i read = read.reverse ++ bytes.data.toList.drop i := by
  fun_induction ByteArray.toList.loop bytes i read with
  | case1 i read hlt ih =>
      have hlt' : i < bytes.data.toList.length := hlt
      have hget : bytes.get! i = bytes.data.toList[i] := by
        rw [ByteArray.get!, Array.getElem_toList]
        exact getElem!_pos bytes.data i hlt
      rw [ih, List.drop_eq_getElem_cons hlt', hget]
      simp
  | case2 i read hge =>
      have hge' : bytes.data.toList.length ≤ i := Nat.le_of_not_lt hge
      rw [List.drop_eq_nil_of_le hge', List.append_nil]

/-- A text is encoded character by character. -/
theorem encode_eq (s : String) : encode s = s.toList.flatMap String.utf8EncodeChar := by
  have hbytes : s.toUTF8.data.toList = s.toList.flatMap String.utf8EncodeChar := by
    rw [← String.ofList_toList (s := s), String.toUTF8_eq_toByteArray, String.toByteArray_ofList,
      String.toList_ofList]
    exact List.toList_data_toByteArray
  rw [encode, ByteArray.toList, toList_loop, hbytes]
  rfl

/-- The bytes of a text are read back as the text. -/
theorem decode?_encode (s : String) : decode? (encode s) = some s.toList :=
  decode?_eq_some_iff.mpr (encode_eq s)

/-- Of the characters only the one that is a byte alone has that byte. -/
theorem mem_utf8EncodeChar_ascii {b : UInt8} (hb : b < 0x80) (c : Char) :
    b ∈ String.utf8EncodeChar c ↔ c = Char.ofNat b.toNat := by
  constructor
  · intro hmem
    have hc : Char.ofNat c.val.toNat = c := Char.ofNat_toNat c
    have hform := form_encode c
    generalize String.utf8EncodeChar c = bytes at hform hmem
    generalize c.val.toNat = v at hform hc
    -- Every byte of a longer form is one that no character is alone.
    cases hform with
    | one hx => rw [← hc, List.mem_singleton.mp hmem]
    | two hx hy =>
        simp only [UInt8.le_iff_toNat_le, UInt8.lt_iff_toNat_lt, UInt8.reduceToNat] at hb hx hy
        simp only [List.mem_cons, List.not_mem_nil, or_false] at hmem
        rcases hmem with rfl | rfl <;> omega
    | three hx hy hz =>
        rw [second_low (by decide), second_high (by decide)] at hy
        simp only [UInt8.le_iff_toNat_le, UInt8.lt_iff_toNat_lt, UInt8.reduceToNat] at hb hx hy hz
        simp only [List.mem_cons, List.not_mem_nil, or_false] at hmem
        rcases hmem with rfl | rfl | rfl <;> omega
    | four hx hy hz hw =>
        rw [second_low (by decide), second_high (by decide)] at hy
        simp only [UInt8.le_iff_toNat_le, UInt8.lt_iff_toNat_lt, UInt8.reduceToNat]
          at hb hx hy hz hw
        simp only [List.mem_cons, List.not_mem_nil, or_false] at hmem
        rcases hmem with rfl | rfl | rfl | rfl <;> omega
  · rintro rfl
    rw [encode_of_form (.one hb)]
    exact List.mem_singleton_self b

/-- An ASCII byte stands in a text where its character does. -/
theorem mem_encode_ascii {b : UInt8} (hb : b < 0x80) (chars : List Char) :
    b ∈ chars.flatMap String.utf8EncodeChar ↔ Char.ofNat b.toNat ∈ chars := by
  simp only [List.mem_flatMap, mem_utf8EncodeChar_ascii hb, exists_eq_right]

/-- An ASCII byte at the end is the last character. -/
theorem decode?_concat_ascii {bytes : List UInt8} {b : UInt8} {chars : List Char} (hb : b < 0x80) :
    decode? (bytes ++ [b]) = some chars ↔
      ∃ before, decode? bytes = some before ∧ chars = before ++ [Char.ofNat b.toNat] := by
  constructor
  · intro h
    have hbytes := decode?_eq_some_iff.mp h
    rcases List.eq_nil_or_concat chars with rfl | ⟨before, c, rfl⟩
    · exact absurd hbytes (by simp)
    · -- The last byte belongs to the last character, which therefore is that byte alone.
      rw [List.concat_eq_append, List.flatMap_append, List.flatMap_singleton] at hbytes
      have hlast : b ∈ String.utf8EncodeChar c := by
        rcases List.eq_nil_or_concat (String.utf8EncodeChar c) with hnil | ⟨init, x, hx⟩
        · exact absurd hnil String.utf8EncodeChar_ne_nil
        · rw [hx, List.concat_eq_append, ← List.append_assoc] at hbytes
          rw [hx, List.concat_eq_append, ← List.append_inj_right' hbytes rfl]
          exact List.mem_append_right init (List.mem_singleton_self b)
      rw [(mem_utf8EncodeChar_ascii hb c).mp hlast] at hbytes ⊢
      rw [encode_of_form (.one hb)] at hbytes
      exact ⟨before, decode?_eq_some_iff.mpr (List.append_cancel_right hbytes), by
        rw [List.concat_eq_append]⟩
  · rintro ⟨before, hbefore, rfl⟩
    refine decode?_eq_some_iff.mpr ?_
    rw [List.flatMap_append, List.flatMap_singleton, encode_of_form (.one hb),
      ← decode?_eq_some_iff.mp hbefore]

namespace Decoder

/-- What may come next in an unfinished code point is never a byte of one alone. -/
def Guarded (d : Decoder) : Prop :=
  ∀ u, d.unfinished = some u → 0x80 ≤ u.low

theorem guarded_first (d : Decoder) (b : UInt8) : (d.first b).Guarded := by
  intro u h
  by_cases hb : b < 0x80
  · rw [first_ascii d hb] at h
    exact absurd h (by simp only [reduceCtorEq, not_false_eq_true])
  · rcases ha : announced b with _ | v
    · rw [first, if_neg hb, ha] at h
      exact absurd h (by simp only [reduceCtorEq, not_false_eq_true])
    · rw [first_announced d ha] at h
      rw [← Option.some.inj h]
      rcases announced_cases ha with hcase | hcase | hcase
      · rw [announced_two hcase] at ha
        rw [← Option.some.inj ha]
        exact UInt8.le_refl _
      · rw [announced_three hcase] at ha
        rw [← Option.some.inj ha]
        dsimp only
        split
        next => decide
        next => exact UInt8.le_refl _
      · rw [announced_four hcase] at ha
        rw [← Option.some.inj ha]
        dsimp only
        split
        next => decide
        next => exact UInt8.le_refl _

theorem guarded_feed (d : Decoder) (b : UInt8) : (d.feed b).Guarded := by
  rcases hu : d.unfinished with _ | u
  · rw [feed_first hu]
    exact guarded_first d b
  · by_cases hb : u.low ≤ b ∧ b ≤ u.high
    · by_cases hm : u.missing ≤ 1
      · rw [feed_last hu hb hm]
        exact fun _ h => absurd h (by simp only [reduceCtorEq, not_false_eq_true])
      · rw [feed_more hu hb (Nat.not_le.mp hm)]
        intro v h
        rw [← Option.some.inj h]
        exact UInt8.le_refl _
    · rw [feed, hu]
      dsimp only
      rw [if_neg hb]
      exact guarded_first d.close b

theorem guarded_foldl {d : Decoder} (hd : d.Guarded) (bytes : List UInt8) :
    (bytes.foldl feed d).Guarded := by
  induction bytes generalizing d with
  | nil => exact hd
  | cons b rest ih => exact ih (guarded_feed d b)

theorem unfinished_feed_ascii {d : Decoder} (hd : d.Guarded) {b : UInt8} (hb : b < 0x80) :
    (d.feed b).unfinished = none := by
  rcases hu : d.unfinished with _ | u
  · rw [feed_first hu, first_ascii d hb]
  · have hout : ¬ (u.low ≤ b ∧ b ≤ u.high) := by
      rintro ⟨hlow, _⟩
      exact absurd (UInt8.le_trans (hd u hu) hlow) (UInt8.not_le.mpr hb)
    rw [feed, hu]
    dsimp only
    rw [if_neg hout, first_ascii _ hb]

/-- The decoder with other pieces complete before its own. -/
def behind (d : Decoder) (before : List Piece) : Decoder :=
  { d with done := d.done ++ before }

theorem first_behind (d : Decoder) (before : List Piece) (b : UInt8) :
    (d.behind before).first b = (d.first b).behind before := by
  unfold first
  split
  next => rfl
  next =>
    rcases announced b with _ | u
    · rfl
    · rfl

theorem close_behind (d : Decoder) (before : List Piece) :
    (d.behind before).close = d.close.behind before := by
  rcases d with ⟨done, _ | u⟩
  · rfl
  · rfl

theorem feed_behind (d : Decoder) (before : List Piece) (b : UInt8) :
    (d.behind before).feed b = (d.feed b).behind before := by
  rcases d with ⟨done, _ | u⟩
  · exact first_behind ⟨done, none⟩ before b
  · by_cases hb : u.low ≤ b ∧ b ≤ u.high
    · by_cases hm : u.missing ≤ 1
      · rw [feed_last (d := behind ⟨done, some u⟩ before) rfl hb hm, feed_last rfl hb hm]
        rfl
      · have hm' := Nat.not_le.mp hm
        rw [feed_more (d := behind ⟨done, some u⟩ before) rfl hb hm', feed_more rfl hb hm']
        rfl
    · have hout : ∀ d : Decoder, d.unfinished = some u → d.feed b = d.close.first b := by
        intro d hu
        rw [feed, hu]
        exact if_neg hb
      rw [hout (behind ⟨done, some u⟩ before) rfl, hout ⟨done, some u⟩ rfl, close_behind,
        first_behind]

theorem foldl_behind (d : Decoder) (before : List Piece) (bytes : List UInt8) :
    bytes.foldl feed (d.behind before) = (bytes.foldl feed d).behind before := by
  induction bytes generalizing d with
  | nil => rfl
  | cons b rest ih => rw [List.foldl_cons, List.foldl_cons, feed_behind, ih]

end Decoder

/-- What stands behind a byte that is a code point alone is cut on its own. -/
theorem pieces_append_ascii (bytes rest : List UInt8) {b : UInt8} (hb : b < 0x80) :
    pieces (bytes ++ b :: rest) = pieces (bytes ++ [b]) ++ pieces rest := by
  have hstart : ({} : Decoder).Guarded :=
    fun _ h => absurd h (by simp only [reduceCtorEq, not_false_eq_true])
  have hnone := Decoder.unfinished_feed_ascii (Decoder.guarded_foldl hstart bytes) hb
  generalize hd : (bytes.foldl Decoder.feed {}).feed b = d at hnone
  -- With nothing unfinished the decoder goes on as a new one does.
  have hnew : d = ({} : Decoder).behind d.done := by
    rcases d with ⟨done, unfinished⟩
    rw [show unfinished = none from hnone]
    rfl
  have hbefore : pieces (bytes ++ [b]) = d.done.reverse := by
    rw [pieces, List.foldl_append, List.foldl_cons, List.foldl_nil, hd, Decoder.close, hnone]
  rw [hbefore, pieces, List.foldl_append, List.foldl_cons, hd, hnew, Decoder.foldl_behind,
    Decoder.close_behind]
  exact List.reverse_append

/-- An ASCII byte ends whatever was unfinished before it. So it does not matter
    to a lossy text where its bytes are cut behind a newline. -/
theorem lossy_append_ascii (bytes rest : List UInt8) {b : UInt8} (hb : b < 0x80) :
    lossy (bytes ++ b :: rest) = lossy (bytes ++ [b]) ++ lossy rest := by
  rw [lossy, pieces_append_ascii bytes rest hb, List.map_append]
  rfl

/-- Bytes are never all lost: what cannot be read is replaced. -/
theorem lossy_ne_nil {bytes : List UInt8} (h : bytes ≠ []) : lossy bytes ≠ [] := by
  intro hnil
  have hpieces : pieces bytes = [] := List.map_eq_nil_iff.mp hnil
  have hbytes := flatMap_pieces bytes
  rw [hpieces] at hbytes
  exact h hbytes.symm

end Utf8

end SoftPlc.Text
