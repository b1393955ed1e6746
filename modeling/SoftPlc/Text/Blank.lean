/-!
# Blank characters

Which characters count as white space around a number or at the end of a
line. The set is Unicode's `White_Space` property, of which core's
`Char.isWhitespace` knows only the four most common members; an engine that
ends a reply with a no-break space or a line separator is still understood.

## Main definitions

* `isBlank`: Membership in `White_Space`.
* `trim`: A text without the blanks around it.
* `trimEnd`: A text without the blanks behind it.

## Theorems

* `isBlank_of_isWhitespace`: Core's class is part of this one.
* `trimEnd_append_blanks`: What `trimEnd` removes is blank, and only a tail.
-/

namespace SoftPlc.Text

/-- The ranges of `White_Space`, both ends included. -/
def blankRanges : List (Nat × Nat) :=
  [(0x9, 0xD), (0x20, 0x20), (0x85, 0x85), (0xA0, 0xA0), (0x1680, 0x1680), (0x2000, 0x200A),
    (0x2028, 0x2029), (0x202F, 0x202F), (0x205F, 0x205F), (0x3000, 0x3000)]

/-- The character is white space. -/
def isBlank (c : Char) : Bool :=
  blankRanges.any fun r => r.1 ≤ c.toNat && c.toNat ≤ r.2

/-- The text without the blanks behind it. -/
def trimEnd (s : List Char) : List Char :=
  (s.reverse.dropWhile isBlank).reverse

/-- The text without the blanks around it. -/
def trim (s : List Char) : List Char :=
  trimEnd (s.dropWhile isBlank)

/-- Core's white space is blank. -/
theorem isBlank_of_isWhitespace (c : Char) (h : c.isWhitespace = true) : isBlank c = true := by
  simp only [Char.isWhitespace, Bool.or_eq_true, decide_eq_true_eq] at h
  rcases h with ((h | h) | h) | h <;> subst h <;> decide

/-- A text is its trimmed form and a tail of blanks. -/
theorem trimEnd_append_blanks (s : List Char) :
    s = trimEnd s ++ (s.reverse.takeWhile isBlank).reverse := by
  rw [trimEnd, ← List.reverse_append, List.takeWhile_append_dropWhile, List.reverse_reverse]

end SoftPlc.Text
