import SoftPlc.Control.Reply

/-!
# What a reply says about the uptime

The reply to the uptime query is understood exactly if it is a number with
nothing but blanks around it: perhaps a plus sign, then decimal digits, as many
as there are, of a number that a word of 64 bits can hold. `Says` builds such
replies up, and knows nothing of how they are taken apart; `readSeconds` takes
the blanks away first and looks at what is left. The two agree because neither
a sign nor a digit is a blank, so what is taken away are the blanks and no more.

Leading zeros are digits like others, and there is no limit to them: the number
is bounded and not the text.

## Main definitions

* `Numeral`: Decimal digits and the number that they are.
* `Says`: A reply says a number of seconds.

## Theorems

* `numeral_iff`: Digits are read from the left as they are built up.
* `trim_surrounded`: Only the blanks around a text are taken away.
* `readSeconds_eq_ok_iff`, `readSeconds_eq_error_iff`: What is understood.
* `says_toString`: Every number of 64 bits can be said.
-/

namespace SoftPlc

/-- Decimal digits, one at least, and the number that they are. -/
inductive Numeral : List Char → Nat → Prop where
  | digit (c : Char) (h : c.isDigit = true) : Numeral [c] (c.toNat - '0'.toNat)
  | more (digits : List Char) (n : Nat) (hdigits : Numeral digits n) (c : Char)
      (h : c.isDigit = true) : Numeral (digits ++ [c]) (10 * n + (c.toNat - '0'.toNat))

/-- A reply says a number of seconds: between blanks, perhaps behind a plus
    sign, in digits, and a word can hold it. -/
def Says (reply : String) (n : Nat) : Prop :=
  ∃ before sign digits after, reply.toList = before ++ (sign ++ digits) ++ after ∧
    (∀ c ∈ before, Text.isBlank c = true) ∧ (∀ c ∈ after, Text.isBlank c = true) ∧
    (sign = [] ∨ sign = ['+']) ∧ Numeral digits n ∧ n < UInt64.size

/-- Digits are read from the left as they are built up. -/
theorem numeral_iff {digits : List Char} {n : Nat} :
    Numeral digits n ↔
      digits ≠ [] ∧ digits.all Char.isDigit = true ∧ Nat.ofDigitChars 10 digits 0 = n := by
  constructor
  · intro h
    induction h with
    | digit c h =>
        refine ⟨List.cons_ne_nil c [], by simpa using h, ?_⟩
        rw [Nat.ofDigitChars_cons, Nat.ofDigitChars_nil, Nat.mul_zero, Nat.zero_add]
    | more digits n hdigits c h ih =>
        rcases ih with ⟨_, hall, hn⟩
        refine ⟨List.append_ne_nil_of_right_ne_nil _ (List.cons_ne_nil c []), ?_, ?_⟩
        · rw [List.all_append, hall]
          simpa using h
        · rw [Nat.ofDigitChars_append, hn, Nat.ofDigitChars_cons, Nat.ofDigitChars_nil]
  · rintro ⟨hne, hall, hn⟩
    induction hrev : digits.reverse generalizing digits n with
    | nil => exact absurd (List.reverse_eq_nil_iff.mp hrev) hne
    | cons c rest ih =>
        have hdigits : digits = rest.reverse ++ [c] := by
          rw [← List.reverse_reverse digits, hrev, List.reverse_cons]
        rw [hdigits, List.all_append, Bool.and_eq_true] at hall
        have hc : c.isDigit = true := by simpa using hall.2
        have hvalue : n = 10 * Nat.ofDigitChars 10 rest.reverse 0 + (c.toNat - '0'.toNat) := by
          rw [← hn, hdigits, Nat.ofDigitChars_append, Nat.ofDigitChars_cons, Nat.ofDigitChars_nil]
        rw [hdigits, hvalue]
        cases rest with
        | nil => simpa [Nat.ofDigitChars_nil] using Numeral.digit c hc
        | cons d more =>
            refine .more _ _ (ih ?_ hall.1 rfl (List.reverse_reverse _)) c hc
            rw [ne_eq, List.reverse_eq_nil_iff]
            exact List.cons_ne_nil d more

/-- No digit is a blank. -/
theorem isBlank_of_isDigit {c : Char} (h : c.isDigit = true) : Text.isBlank c = false := by
  have hdigit : 48 ≤ c.toNat ∧ c.toNat ≤ 57 := Char.isDigit_iff_toNat.mp h
  simp only [Text.isBlank, Text.blankRanges, List.any_cons, List.any_nil, Bool.or_false,
    Bool.or_eq_false_iff, Bool.and_eq_false_iff, decide_eq_false_iff_not]
  omega

/-- What begins with no blank is left as it is. -/
theorem dropWhile_of_head {p : Char → Bool} {cs rest : List Char} (hne : cs ≠ [])
    (h : ∀ c, cs.head? = some c → p c = false) : (cs ++ rest).dropWhile p = cs ++ rest := by
  cases cs with
  | nil => exact absurd rfl hne
  | cons c cs =>
      rw [List.cons_append]
      exact List.dropWhile_cons_of_neg (by rw [h c rfl]; exact Bool.false_ne_true)

/-- Only the blanks around a text are taken away. -/
theorem trim_surrounded {before body after : List Char}
    (hbefore : ∀ c ∈ before, Text.isBlank c = true) (hafter : ∀ c ∈ after, Text.isBlank c = true)
    (hbody : body ≠ []) (hfirst : ∀ c, body.head? = some c → Text.isBlank c = false)
    (hlast : ∀ c, body.getLast? = some c → Text.isBlank c = false) :
    Text.trim (before ++ body ++ after) = body := by
  have hafter : ∀ c ∈ after.reverse, Text.isBlank c = true :=
    fun c hc => hafter c (List.mem_reverse.mp hc)
  have hhead : ∀ c, body.reverse.head? = some c → Text.isBlank c = false := by
    intro c hc
    exact hlast c (List.head?_reverse ▸ hc)
  have hend : (body.reverse ++ []).dropWhile Text.isBlank = body.reverse ++ [] :=
    dropWhile_of_head (mt List.reverse_eq_nil_iff.mp hbody) hhead
  rw [List.append_nil] at hend
  rw [Text.trim, List.append_assoc, List.dropWhile_append_of_pos hbefore,
    dropWhile_of_head hbody hfirst, Text.trimEnd, List.reverse_append,
    List.dropWhile_append_of_pos hafter, hend, List.reverse_reverse]

/-- A text is its trimmed form with blanks around it. -/
theorem trim_decompose (s : List Char) :
    ∃ before after, s = before ++ Text.trim s ++ after ∧
      (∀ c ∈ before, Text.isBlank c = true) ∧ ∀ c ∈ after, Text.isBlank c = true := by
  refine ⟨s.takeWhile Text.isBlank, ((s.dropWhile Text.isBlank).reverse.takeWhile
    Text.isBlank).reverse, ?_, ?_, ?_⟩
  · rw [Text.trim, List.append_assoc, ← Text.trimEnd_append_blanks,
      List.takeWhile_append_dropWhile]
  · exact List.all_eq_true.mp List.all_takeWhile
  · intro c hc
    exact List.all_eq_true.mp List.all_takeWhile c (List.mem_reverse.mp hc)

/-- A sign and digits begin and end with no blank. -/
theorem Numeral.not_blank {sign digits : List Char} {n : Nat} (h : Numeral digits n)
    (hsign : sign = [] ∨ sign = ['+']) : ∀ c ∈ sign ++ digits, Text.isBlank c = false := by
  intro c hc
  rcases List.mem_append.mp hc with hc | hc
  · rcases hsign with rfl | rfl
    · exact absurd hc List.not_mem_nil
    · rw [List.mem_singleton.mp hc]
      decide
  · exact isBlank_of_isDigit (List.all_eq_true.mp (numeral_iff.mp h).2.1 c hc)

theorem secondsBound_eq : secondsBound = UInt64.size :=
  rfl

/-- A reply that says a number is read as that number. -/
theorem Says.seconds? {reply : String} {n : Nat} (h : Says reply n) : seconds? reply = some n := by
  rcases h with ⟨before, sign, digits, after, hreply, hbefore, hafter, hsign, hdigits, hlt⟩
  have hblank := hdigits.not_blank hsign
  rcases numeral_iff.mp hdigits with ⟨hne, hall, hn⟩
  have htrim : Text.trim reply.toList = sign ++ digits := by
    rw [hreply]
    refine trim_surrounded hbefore hafter (List.append_ne_nil_of_right_ne_nil _ hne) ?_ ?_
    · exact fun c hc => hblank c (List.mem_of_head? hc)
    · exact fun c hc => hblank c (List.mem_of_getLast? hc)
  have hbody : (if (sign ++ digits).head? = some '+' then (sign ++ digits).tail
      else sign ++ digits) = digits := by
    rcases hsign with rfl | rfl
    · -- Digits alone begin with a digit, and so with no sign.
      refine if_neg fun hplus => ?_
      have hdigit := List.all_eq_true.mp hall '+' (List.mem_of_head? hplus)
      exact absurd hdigit (by decide)
    · rfl
  rw [SoftPlc.seconds?, htrim]
  dsimp only
  rw [hbody, if_neg (by simp [hne, hall]), hn, secondsBound_eq, if_pos hlt]

/-- A reply that is read as a number says it. -/
theorem says_of_seconds? {reply : String} {n : Nat} (h : seconds? reply = some n) :
    Says reply n := by
  rw [seconds?] at h
  dsimp only at h
  generalize hbody : Text.trim reply.toList = body at h
  generalize hdigits : (if body.head? = some '+' then body.tail else body) = digits at h
  have hsign : ∃ sign, (sign = [] ∨ sign = ['+']) ∧ body = sign ++ digits := by
    by_cases hplus : body.head? = some '+'
    · rw [if_pos hplus] at hdigits
      rcases List.head?_eq_some_iff.mp hplus with ⟨rest, hrest⟩
      refine ⟨['+'], .inr rfl, ?_⟩
      rw [← hdigits, hrest]
      rfl
    · rw [if_neg hplus] at hdigits
      exact ⟨[], .inl rfl, hdigits⟩
  rcases hsign with ⟨sign, hsign, hsplit⟩
  rcases trim_decompose reply.toList with ⟨before, after, hreply, hbefore, hafter⟩
  rw [hbody, hsplit] at hreply
  split at h
  next => exact absurd h.symm (Option.some_ne_none n)
  next hnumeral =>
    split at h
    next hlt =>
      rw [Bool.or_eq_true, not_or, Bool.not_eq_true, Bool.not_eq_true,
        Bool.not_eq_false'] at hnumeral
      refine ⟨before, sign, digits, after, hreply, hbefore, hafter, hsign, ?_, ?_⟩
      · refine numeral_iff.mpr ⟨?_, hnumeral.2, Option.some.inj h⟩
        exact List.isEmpty_eq_false_iff.mp hnumeral.1
      · rw [← Option.some.inj h]
        exact hlt
    next => exact absurd h.symm (Option.some_ne_none n)

/-- A reply is read as a number exactly if it says it. -/
theorem readSeconds_eq_ok_iff {reply : String} {n : Nat} :
    readSeconds reply = .ok n ↔ Says reply n := by
  rw [readSeconds]
  constructor
  · intro h
    split at h
    next m hm => exact says_of_seconds? (Except.ok.inj h ▸ hm)
    next => exact nomatch h
  · intro h
    rw [h.seconds?]

example : readSeconds " +0061\r\n" = .ok 61 := by
  rfl

/-- A reply that says no number is complained about as it is. -/
theorem readSeconds_eq_error_iff {reply : String} {e : ControlError} :
    readSeconds reply = .error e ↔
      (∀ n, ¬ Says reply n) ∧ e = .malformedReply Command.execTime.wire reply := by
  constructor
  · intro h
    refine ⟨fun n hn => ?_, ?_⟩
    · rw [readSeconds_eq_ok_iff.mpr hn] at h
      exact nomatch h
    · rw [readSeconds] at h
      split at h
      next => exact nomatch h
      next => exact (Except.error.inj h).symm
  · rintro ⟨hno, rfl⟩
    cases hread : readSeconds reply with
    | ok n => exact absurd (readSeconds_eq_ok_iff.mp hread) (hno n)
    | error e =>
        rw [readSeconds] at hread
        split at hread
        next => exact nomatch hread
        next => exact congrArg _ (Except.error.inj hread).symm

/-- Every number of 64 bits can be said, in its own digits and with any blanks
    around them. -/
theorem says_toString (n : UInt64) {before after : List Char}
    (hbefore : ∀ c ∈ before, Text.isBlank c = true) (hafter : ∀ c ∈ after, Text.isBlank c = true) :
    Says (String.ofList (before ++ (toString n.toNat).toList ++ after)) n.toNat := by
  refine ⟨before, [], (toString n.toNat).toList, after, ?_, hbefore, hafter, .inl rfl, ?_,
    n.toNat_lt_size⟩
  · rw [String.toList_ofList, List.nil_append]
  · rw [Nat.toString_eq_repr, Nat.toList_repr]
    refine numeral_iff.mpr ⟨Nat.toDigits_ne_nil, ?_, Nat.ofDigitChars_toDigits (by decide)
      (by decide)⟩
    exact List.all_eq_true.mpr fun c hc =>
      Nat.isDigit_of_mem_toDigits (by decide) (by decide) hc

end SoftPlc
