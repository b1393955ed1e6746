import SoftPlc.Text.Blank
import SoftPlc.Text.Quoted

/-!
# What a shown text is made of

A quoted text has no hidden character in it. Each form is either the character
itself, which is not hidden then, or it is spelt in printable ASCII, and no
character of that is hidden. Which code points the table hides does not matter
for this, as long as it leaves printable ASCII alone. That no control character
is left over takes one look at the table, since all of them lie in its first
two ranges.

A line without the blanks at its end is a beginning of the line, and no blank
stands at its end. A newline is a blank, so the newline that ends a line goes
with them.

## Main definitions

* `isControl`: A control character.

## Theorems

* `isHidden_of_isControl`: Control characters are hidden.
* `visible_quote`: Nothing is hidden in a quoted text.
* `getLast?_trimEnd`, `trimEnd_concat`: What is left of a line.
-/

namespace SoftPlc.Text

/-- The character is a control character: of general category `Cc`. -/
def isControl (c : Char) : Bool :=
  c.toNat < 0x20 || (0x7F ≤ c.toNat && c.toNat < 0xA0)

/-- A printable character of ASCII. -/
def isPrintable (c : Char) : Bool :=
  0x20 ≤ c.toNat && c.toNat < 0x7F

/-- Printable ASCII is left alone, whatever else the table hides. -/
theorem isHidden_of_isPrintable {c : Char} (h : isPrintable c = true) : isHidden c = false := by
  rw [isPrintable, Bool.and_eq_true, decide_eq_true_iff, decide_eq_true_iff] at h
  rw [isHidden, if_pos h]

/-- The first two ranges of the table are wider than the controls. -/
theorem isHidden_of_isControl {c : Char} (h : isControl c = true) : isHidden c = true := by
  rw [isControl, Bool.or_eq_true, Bool.and_eq_true, decide_eq_true_iff, decide_eq_true_iff,
    decide_eq_true_iff] at h
  rw [isHidden, if_neg (by omega), List.any_eq_true]
  rcases h with h | h
  · refine ⟨(0x0, 0x1F), List.mem_cons_self, ?_⟩
    rw [Bool.and_eq_true, decide_eq_true_iff, decide_eq_true_iff]
    omega
  · refine ⟨(0x7F, 0xA0), List.mem_cons_of_mem _ List.mem_cons_self, ?_⟩
    rw [Bool.and_eq_true, decide_eq_true_iff, decide_eq_true_iff]
    omega

theorem isPrintable_hexDigits (n : Nat) : ∀ c ∈ hexDigits n, isPrintable c = true := by
  have digit : ∀ d, d < 16 → isPrintable (Nat.digitChar d) = true := by decide
  induction n using Nat.strongRecOn with
  | ind n ih =>
    rw [hexDigits_eq]
    split
    next hn => exact List.forall_mem_singleton.mpr (digit n hn)
    next hn =>
      refine List.forall_mem_append.mpr ⟨ih (n / 16) (by omega), ?_⟩
      exact List.forall_mem_singleton.mpr (digit (n % 16) (by omega))

/-- Nothing is hidden in the form of a character. -/
theorem visible_escape (c : Char) : ∀ x ∈ escape c, isHidden x = false := by
  have spelt : ∀ {form : List Char}, form.all isPrintable = true →
      ∀ x ∈ form, isHidden x = false :=
    fun h x hx => isHidden_of_isPrintable (List.all_eq_true.mp h x hx)
  unfold escape
  split
  next => exact spelt (by decide)
  split
  next => exact spelt (by decide)
  split
  next => exact spelt (by decide)
  split
  next => exact spelt (by decide)
  split
  next => exact spelt (by decide)
  split
  next => exact spelt (by decide)
  split
  next =>
    refine List.forall_mem_append.mpr ⟨List.forall_mem_append.mpr ⟨spelt (by decide), ?_⟩, ?_⟩
    · exact fun x hx => isHidden_of_isPrintable (isPrintable_hexDigits c.toNat x hx)
    · exact spelt (by decide)
  next hvisible => exact List.forall_mem_singleton.mpr (Bool.eq_false_iff.mpr hvisible)

/-- Nothing is hidden in a quoted text. -/
theorem visible_quote (s : List Char) : ∀ x ∈ quote s, isHidden x = false := by
  have mark : isHidden '"' = false := isHidden_of_isPrintable (by decide)
  rw [quote]
  refine List.forall_mem_cons.mpr ⟨mark, List.forall_mem_append.mpr ⟨?_, ?_⟩⟩
  · intro x hx
    rcases List.mem_flatMap.mp hx with ⟨c, _, hx⟩
    exact visible_escape c x hx
  · exact List.forall_mem_singleton.mpr mark

/-- What is left of a line is a beginning of it. -/
theorem trimEnd_prefix (s : List Char) : trimEnd s <+: s :=
  ⟨_, (trimEnd_append_blanks s).symm⟩

/-- No blank is left at the end. -/
theorem getLast?_trimEnd {s : List Char} {c : Char} (h : (trimEnd s).getLast? = some c) :
    isBlank c = false := by
  rw [trimEnd, List.getLast?_reverse] at h
  have hhead := List.head?_dropWhile_not isBlank s.reverse
  rw [h] at hhead
  exact hhead

/-- A blank at the end is not left. -/
theorem trimEnd_concat {c : Char} (h : isBlank c = true) (s : List Char) :
    trimEnd (s ++ [c]) = trimEnd s := by
  rw [trimEnd, List.reverse_concat, List.dropWhile_cons_of_pos h, trimEnd]

end SoftPlc.Text
