/-!
# Hexadecimal digits

Numbers in base sixteen, as they stand in quoted text and in IPv6 addresses.
They are written in lowercase without leading zeros and read in either case.

## Main definitions

* `hexDigits`: The digits of a number.
* `hexValue?`: The value of one digit.

## Theorems

* `hexValue?_digitChar`: A written digit is read back.
* `hexDigits_eq`: The last digit and those before it.
-/

namespace SoftPlc.Text

/-- A number's lowercase hexadecimal digits, without leading zeros. -/
def hexDigits (n : Nat) : List Char :=
  Nat.toDigits 16 n

/-- The value of a hexadecimal digit. -/
def hexValue? (c : Char) : Option Nat :=
  if '0' ≤ c ∧ c ≤ '9' then some (c.toNat - '0'.toNat)
  else if 'a' ≤ c ∧ c ≤ 'f' then some (c.toNat - 'a'.toNat + 10)
  else if 'A' ≤ c ∧ c ≤ 'F' then some (c.toNat - 'A'.toNat + 10)
  else none

/-- A written digit is read back. -/
theorem hexValue?_digitChar : ∀ d, d < 16 → hexValue? (Nat.digitChar d) = some d := by
  decide

/-- A number's digits are those of its sixteenth part and one more. -/
theorem hexDigits_eq (n : Nat) :
    hexDigits n =
      if n < 16 then [n.digitChar] else hexDigits (n / 16) ++ [(n % 16).digitChar] :=
  Nat.toDigits_eq_if (by decide)

end SoftPlc.Text
