import Mathlib.Logic.ExistsUnique
import SoftPlc.Uptime

/-!
# What a text of the uptime says

A number of seconds is in exactly one way a number of weeks and of days,
hours, minutes and seconds below a week: `Breakdown`. What is shown are its
first counts that are not zero, each with its unit. The text is a sentence
about the seconds and can be read back: `read?` finds the parts in it, whatever
they are, and `value` adds them up.

Five parts are all there are, so a text that may have five says all. A shorter
one says a little less than the truth, and the smallest unit that it mentions
bounds what is missing. The bound needs no decimals and is proved along the
list of units, where what is left over is always less than the unit before it.

The program counts in words of 64 bits. `wordPartsOf` is the same loop there,
and gives up at the first step that leaves the range of a word. It never does,
because a count is a quotient: multiplied by its unit it is at most what was
divided, and so it can be taken from it.

## Main definitions

* `Breakdown`: Weeks, days, hours, minutes and seconds.
* `read?`: The parts that a text says.
* `wordPartsOf`: The loop on words.

## Theorems

* `existsUnique_breakdown`: Every number of seconds has one breakdown.
* `parts_total`: Its counts that are not zero are the parts.
* `read?_text`: A text is read as the parts that it shows.
* `value_take_bounds`: What the first parts leave out.
* `wordPartsOf_eq`: The loop stays within words.
* `text_faithful`: All of this, for the texts that are shown.
-/

namespace SoftPlc.Uptime

/-- Weeks, days, hours, minutes and seconds. -/
structure Breakdown where
  weeks : Nat
  days : Fin 7
  hours : Fin 24
  minutes : Fin 60
  seconds : Fin 60
  deriving DecidableEq, Repr

namespace Breakdown

/-- The number of seconds that a breakdown is of. -/
def total (b : Breakdown) : Nat :=
  b.weeks * 604800 + b.days * 86400 + b.hours * 3600 + b.minutes * 60 + b.seconds

/-- The counts with the names of their units, greatest unit first. -/
def counts (b : Breakdown) : List (Nat × String) :=
  [(b.weeks, "week"), (b.days, "day"), (b.hours, "hour"), (b.minutes, "minute"),
    (b.seconds, "second")]

/-- The breakdown of a number of seconds. -/
def ofSeconds (n : Nat) : Breakdown where
  weeks := n / 604800
  days := Fin.ofNat 7 (n / 86400)
  hours := Fin.ofNat 24 (n / 3600)
  minutes := Fin.ofNat 60 (n / 60)
  seconds := Fin.ofNat 60 n

theorem total_ofSeconds (n : Nat) : (ofSeconds n).total = n := by
  simp only [total, ofSeconds, Fin.ofNat]
  omega

end Breakdown

/-- Every number of seconds has one breakdown. -/
theorem existsUnique_breakdown (n : Nat) : ∃! b : Breakdown, b.total = n := by
  refine ⟨.ofSeconds n, Breakdown.total_ofSeconds n, ?_⟩
  rintro ⟨weeks, days, hours, minutes, seconds⟩ rfl
  simp only [Breakdown.ofSeconds, Breakdown.total, Breakdown.mk.injEq, Fin.ext_iff, Fin.ofNat]
  omega

/-- How often each unit fits into what the greater units left over. -/
def countsOf : List TimeUnit → Nat → List (Nat × TimeUnit)
  | [], _ => []
  | u :: rest, n => (n / u.seconds, u) :: countsOf rest (n % u.seconds)

/-- A unit that does not fit leaves everything over. -/
theorem partsOf_eq (us : List TimeUnit) (n : Nat) :
    partsOf us n = (countsOf us n).filter fun p => p.1 ≠ 0 := by
  induction us generalizing n with
  | nil => rfl
  | cons u rest ih =>
      rw [partsOf, countsOf]
      by_cases hnone : n / u.seconds = 0
      · have hwhole : n % u.seconds = n := by
          have hsplit := Nat.div_add_mod n u.seconds
          rw [hnone, Nat.mul_zero, Nat.zero_add] at hsplit
          exact hsplit
        rw [if_pos hnone, hwhole, ih, List.filter_cons_of_neg (by simp [hnone])]
      · rw [if_neg hnone, ih, List.filter_cons_of_pos (by simp [hnone])]

/-- The parts are the counts of the breakdown that are not zero. -/
theorem parts_total (b : Breakdown) :
    (parts b.total).map (fun p => (p.1, p.2.name)) = b.counts.filter fun p => p.1 ≠ 0 := by
  have hcounts : (countsOf units b.total).map (fun p => (p.1, p.2.name)) = b.counts := by
    rcases b with ⟨weeks, days, hours, minutes, seconds⟩
    simp only [Breakdown.total, Breakdown.counts, units, countsOf, List.map_cons, List.map_nil,
      List.cons.injEq, Prod.mk.injEq, and_true]
    omega
  rw [parts, partsOf_eq, ← hcounts, List.filter_map]
  rfl

/-- The part that a piece of text says, if it is a number and the name of a
    unit. -/
def readPart? (piece : List Char) : Option (Nat × TimeUnit) :=
  let name := piece.dropWhile Char.isDigit
  (units.find? fun u =>
      name = ' ' :: u.name.toList || name = ' ' :: (u.name.toList ++ ['s'])).map
    (Nat.ofDigitChars 10 (piece.takeWhile Char.isDigit) 0, ·)

/-- The parts that a text says. They stand between commas, behind a blank each
    but for the first. -/
def read? (text : String) : Option (List (Nat × TimeUnit)) :=
  if text.isEmpty then some []
  else ((text.toList.splitOn ',').map fun piece => piece.dropWhile (· = ' ')).mapM readPart?

theorem toList_partText (p : Nat × TimeUnit) :
    (partText p).toList = Nat.toDigits 10 p.1 ++
      ' ' :: (p.2.name.toList ++ if p.1 = 1 then [] else ['s']) := by
  rw [partText]
  simp only [String.toList_append, Nat.toString_eq_repr, Nat.toList_repr, List.append_assoc]
  split <;> rfl

/-- Digits end where the blank before the name of the unit stands. -/
theorem digits_append_name (n : Nat) (name : List Char) :
    (Nat.toDigits 10 n ++ ' ' :: name).takeWhile Char.isDigit = Nat.toDigits 10 n ∧
      (Nat.toDigits 10 n ++ ' ' :: name).dropWhile Char.isDigit = ' ' :: name := by
  have hdigits : ∀ c ∈ Nat.toDigits 10 n, c.isDigit = true :=
    fun c hc => Nat.isDigit_of_mem_toDigits (by decide) (by decide) hc
  refine ⟨?_, ?_⟩
  · rw [List.takeWhile_append_of_pos hdigits, List.takeWhile_cons_of_neg (by decide),
      List.append_nil]
  · rw [List.dropWhile_append_of_pos hdigits, List.dropWhile_cons_of_neg (by decide)]

/-- A part is read as what it is the text of. -/
theorem readPart?_partText {p : Nat × TimeUnit} (h : p.2 ∈ units) :
    readPart? (partText p).toList = some p := by
  rcases p with ⟨n, u⟩
  rw [toList_partText, readPart?]
  dsimp only
  rw [(digits_append_name n _).1, (digits_append_name n _).2,
    Nat.ofDigitChars_toDigits (by decide) (by decide)]
  -- No name is another one, nor another one with an s.
  have hfound : units.find? (fun v =>
      ' ' :: (u.name.toList ++ if n = 1 then [] else ['s']) = ' ' :: v.name.toList ||
      ' ' :: (u.name.toList ++ if n = 1 then [] else ['s']) = ' ' :: (v.name.toList ++ ['s']))
        = some u := by
    simp only [units, List.mem_cons, List.not_mem_nil, or_false] at h
    rcases h with rfl | rfl | rfl | rfl | rfl <;> by_cases h1 : n = 1 <;> simp [units, h1]
  rw [hfound]
  rfl

/-- Nothing in a part is a comma. -/
theorem comma_not_mem_partText {p : Nat × TimeUnit} (h : p.2 ∈ units) :
    ',' ∉ (partText p).toList := by
  rw [toList_partText]
  intro hmem
  rcases List.mem_append.mp hmem with hdigit | hname
  · exact absurd (Nat.isDigit_of_mem_toDigits (by decide) (by decide) hdigit) (by decide)
  · simp only [units, List.mem_cons, List.not_mem_nil, or_false] at h
    rcases h with h | h | h | h | h <;> split at hname <;> simp [h] at hname

/-- Pieces between commas and blanks are pieces between commas, with a blank
    before each but the first. -/
theorem intercalate_comma_blank (piece : List Char) (rest : List (List Char)) :
    [',', ' '].intercalate (piece :: rest)
      = [','].intercalate (piece :: rest.map fun p => ' ' :: p) := by
  induction rest generalizing piece with
  | nil => rfl
  | cons next rest ih =>
      rw [List.intercalate_cons_cons, ih, List.map_cons, List.intercalate_cons_cons]
      cases rest with
      | nil => simp [List.intercalate]
      | cons last rest => simp [List.intercalate_cons_cons]

/-- A part begins with a digit, so no blank is taken away from it. -/
theorem dropWhile_partText (p : Nat × TimeUnit) :
    (partText p).toList.dropWhile (· = ' ') = (partText p).toList := by
  rw [toList_partText]
  cases hdigits : Nat.toDigits 10 p.1 with
  | nil => exact absurd hdigits Nat.toDigits_ne_nil
  | cons c cs =>
      have hdigit : c.isDigit = true :=
        Nat.isDigit_of_mem_toDigits (by decide) (by decide) (hdigits ▸ List.mem_cons_self)
      have hblank : c ≠ ' ' := by
        rintro rfl
        exact absurd hdigit (by decide)
      rw [List.cons_append, List.dropWhile_cons_of_neg (by simpa using hblank)]

theorem mapM_readPart? {ps : List (Nat × TimeUnit)} (h : ∀ p ∈ ps, p.2 ∈ units) :
    (ps.map fun p => (partText p).toList).mapM readPart? = some ps := by
  induction ps with
  | nil => rfl
  | cons p rest ih =>
      rw [List.map_cons, List.mapM_cons, readPart?_partText (h p List.mem_cons_self),
        ih fun q hq => h q (List.mem_cons_of_mem p hq)]
      rfl

/-- The text of some parts is read as these parts. -/
theorem read?_intercalate {ps : List (Nat × TimeUnit)} (h : ∀ p ∈ ps, p.2 ∈ units) :
    read? (", ".intercalate (ps.map partText)) = some ps := by
  cases ps with
  | nil => rfl
  | cons first rest =>
      have htext : (", ".intercalate ((first :: rest).map partText)).toList
          = [','].intercalate
            ((partText first).toList :: rest.map fun p => ' ' :: (partText p).toList) := by
        rw [String.toList_intercalate, List.map_map, List.map_cons]
        refine (intercalate_comma_blank _ _).trans ?_
        rw [List.map_map]
        rfl
      -- No part has a comma, so that splitting gives the parts back.
      have hcommas : ∀ piece ∈ (partText first).toList ::
          rest.map (fun p => ' ' :: (partText p).toList), ',' ∉ piece := by
        intro piece hpiece
        rcases List.mem_cons.mp hpiece with rfl | hrest
        · exact comma_not_mem_partText (h first List.mem_cons_self)
        · rcases List.mem_map.mp hrest with ⟨p, hp, rfl⟩
          rw [List.mem_cons, not_or]
          exact ⟨by decide, comma_not_mem_partText (h p (List.mem_cons_of_mem first hp))⟩
      have hblanks : ((partText first).toList ::
          rest.map (fun p => ' ' :: (partText p).toList)).map (fun piece =>
            piece.dropWhile (· = ' ')) = (first :: rest).map fun p => (partText p).toList := by
        rw [List.map_cons, List.map_map, List.map_cons, dropWhile_partText]
        congr 1
        refine List.map_congr_left fun p _ => ?_
        rw [Function.comp_apply, List.dropWhile_cons_of_pos (by decide), dropWhile_partText]
      have hsome : (", ".intercalate ((first :: rest).map partText)).isEmpty = false := by
        rw [String.isEmpty_eq_false_iff, ne_eq, ← String.toList_eq_nil_iff, htext]
        intro hnil
        have hback := List.splitOn_intercalate ',' hcommas (List.cons_ne_nil _ _)
        rw [hnil, toList_partText] at hback
        have hhead := (List.cons.inj hback).1
        exact absurd hhead.symm (List.append_ne_nil_of_right_ne_nil _ (List.cons_ne_nil _ _))
      rw [read?, hsome, if_neg Bool.false_ne_true, htext,
        List.splitOn_intercalate ',' hcommas (List.cons_ne_nil _ _), hblanks]
      exact mapM_readPart? h

theorem unit_mem_of_mem_partsOf {us : List TimeUnit} {n : Nat} {p : Nat × TimeUnit}
    (h : p ∈ partsOf us n) : p.2 ∈ us := by
  induction us generalizing n with
  | nil => exact absurd h List.not_mem_nil
  | cons u rest ih =>
      rw [partsOf] at h
      split at h
      next => exact List.mem_cons_of_mem u (ih h)
      next =>
        rcases List.mem_cons.mp h with rfl | hrest
        · exact List.mem_cons_self
        · exact List.mem_cons_of_mem u (ih hrest)

/-- A text is read as the parts that it shows. -/
theorem read?_text (n granularity : Nat) :
    read? (text n granularity) = some ((parts n).take granularity) :=
  read?_intercalate fun _ hp => unit_mem_of_mem_partsOf (List.mem_of_mem_take hp)

/-- The first parts amount to the whole at most, and what they leave out is
    less than the unit of the last of them. -/
theorem value_take_bounds {us : List TimeUnit} (hus : ∀ u ∈ us, 0 < u.seconds)
    (n granularity : Nat) :
    value ((partsOf us n).take granularity) ≤ n ∧
      ∀ p, ((partsOf us n).take granularity).getLast? = some p →
        n < value ((partsOf us n).take granularity) + p.2.seconds := by
  induction us generalizing n granularity with
  | nil => simp [partsOf, value]
  | cons u rest ih =>
      have hrest := ih fun v hv => hus v (List.mem_cons_of_mem u hv)
      rw [partsOf]
      by_cases hnone : n / u.seconds = 0
      · rw [if_pos hnone]
        exact hrest n granularity
      · rw [if_neg hnone]
        cases granularity with
        | zero => simp [value]
        | succ g =>
            rcases hrest (n % u.seconds) g with ⟨hle, hlt⟩
            have hsplit := Nat.div_add_mod' n u.seconds
            have hleft := Nat.mod_lt n (hus u List.mem_cons_self)
            rw [List.take_succ_cons, value]
            refine ⟨by omega, fun p hp => ?_⟩
            rw [List.getLast?_cons] at hp
            cases hlast : ((partsOf rest (n % u.seconds)).take g).getLast? with
            | none =>
                -- Nothing smaller is shown, so all that is left over is left out.
                rw [hlast] at hp
                rw [← Option.some.inj hp]
                dsimp only [Option.getD_none]
                omega
            | some q =>
                rw [hlast] at hp
                have hq := hlt q hlast
                rw [← Option.some.inj hp]
                dsimp only [Option.getD_some]
                omega

theorem parts_ne_nil {n : Nat} (h : 0 < n) : parts n ≠ [] := by
  intro hnil
  have hwhole := value_parts n
  rw [hnil] at hwhole
  exact absurd hwhole (Nat.ne_of_lt h)

/-- There are not more parts than units. -/
theorem take_parts {n granularity : Nat} (h : 5 ≤ granularity) :
    (parts n).take granularity = parts n := by
  refine List.take_of_length_le ?_
  have hlength : (parts n).length ≤ (countsOf units n).length := by
    rw [parts, partsOf_eq]
    exact List.length_filter_le _ _
  exact Nat.le_trans hlength h

theorem intercalate_concat {sep last : String} {ts : List String} (h : ts ≠ []) :
    sep.intercalate (ts ++ [last]) = sep.intercalate ts ++ (sep ++ last) := by
  induction ts with
  | nil => exact absurd rfl h
  | cons t rest ih =>
      cases rest with
      | nil => simp [String.intercalate_cons_cons, String.append_assoc]
      | cons next rest =>
          have hrest := ih (List.cons_ne_nil next rest)
          rw [List.cons_append] at hrest
          rw [List.cons_append, List.cons_append, String.intercalate_cons_cons, hrest,
            String.intercalate_cons_cons, ← String.append_assoc]

/-- A coarser text is the beginning of a finer one. -/
theorem exists_text_succ (n granularity : Nat) :
    ∃ more, text n (granularity + 1) = text n granularity ++ more := by
  rw [text, text, List.take_add_one, List.map_append]
  cases (parts n)[granularity]? with
  | none => exact ⟨"", by simp⟩
  | some p =>
      by_cases hnone : ((parts n).take granularity).map partText = []
      · exact ⟨partText p, by simp [hnone]⟩
      · exact ⟨_, intercalate_concat hnone⟩

/-- A quotient of words; there is none by zero. -/
def div? (a b : UInt64) : Option UInt64 :=
  if b = 0 then none else some (a / b)

/-- A product of words, if it is one. -/
def mul? (a b : UInt64) : Option UInt64 :=
  if a.toBitVec.umulOverflow b.toBitVec then none else some (a * b)

/-- A difference of words, if it is one. -/
def sub? (a b : UInt64) : Option UInt64 :=
  if a.toBitVec.usubOverflow b.toBitVec then none else some (a - b)

/-- The parts, counted in words; nothing if a step leaves the range of a
    word. -/
def wordPartsOf : List TimeUnit → UInt64 → Option (List (UInt64 × TimeUnit))
  | [], _ => some []
  | u :: rest, left =>
    (div? left (.ofNat u.seconds)).bind fun count =>
      if count = 0 then wordPartsOf rest left
      else
        (mul? count (.ofNat u.seconds)).bind fun taken =>
          (sub? left taken).bind fun left =>
            (wordPartsOf rest left).map fun parts => (count, u) :: parts

theorem mul?_of_lt {a b : UInt64} (h : a.toNat * b.toNat < UInt64.size) :
    ∃ c, mul? a b = some c ∧ c.toNat = a.toNat * b.toNat := by
  refine ⟨a * b, if_neg ?_, ?_⟩
  · rw [BitVec.umulOverflow, decide_eq_true_eq, Nat.not_le]
    exact h
  · rw [UInt64.toNat_mul, Nat.mod_eq_of_lt h]

theorem sub?_of_le {a b : UInt64} (h : b.toNat ≤ a.toNat) :
    ∃ c, sub? a b = some c ∧ c.toNat = a.toNat - b.toNat := by
  refine ⟨a - b, if_neg ?_, UInt64.toNat_sub_of_le a b (UInt64.le_iff_toNat_le.mpr h)⟩
  rw [BitVec.usubOverflow, decide_eq_true_eq, Nat.not_lt]
  exact h

/-- The loop stays within words, and counts what it should. -/
theorem wordPartsOf_eq {us : List TimeUnit}
    (hus : ∀ u ∈ us, 0 < u.seconds ∧ u.seconds < UInt64.size) (n : UInt64) :
    (wordPartsOf us n).map (List.map fun p => (p.1.toNat, p.2)) = some (partsOf us n.toNat) := by
  induction us generalizing n with
  | nil => rfl
  | cons u rest ih =>
      have hrest := ih fun v hv => hus v (List.mem_cons_of_mem u hv)
      rcases hus u List.mem_cons_self with ⟨hpos, hsize⟩
      have hunit : (UInt64.ofNat u.seconds).toNat = u.seconds := UInt64.toNat_ofNat_of_lt' hsize
      have hnonzero : UInt64.ofNat u.seconds ≠ 0 := by
        intro hzero
        rw [hzero] at hunit
        exact absurd hunit (Nat.ne_of_lt hpos)
      have hcount : (n / UInt64.ofNat u.seconds).toNat = n.toNat / u.seconds := by
        rw [UInt64.toNat_div, hunit]
      rw [wordPartsOf, div?, if_neg hnonzero, Option.bind_some, partsOf]
      by_cases hnone : n.toNat / u.seconds = 0
      · have hzero : n / UInt64.ofNat u.seconds = 0 :=
          UInt64.toNat_inj.mp (hcount.trans hnone)
        rw [if_pos hzero, if_pos hnone]
        exact hrest n
      · have hsome : n / UInt64.ofNat u.seconds ≠ 0 := by
          intro hzero
          rw [hzero] at hcount
          exact hnone hcount.symm
        -- A count times its unit is at most what was divided.
        have hle : n.toNat / u.seconds * u.seconds ≤ n.toNat := Nat.div_mul_le_self _ _
        have hproduct : (n / UInt64.ofNat u.seconds).toNat * (UInt64.ofNat u.seconds).toNat
            < UInt64.size := by
          rw [hcount, hunit]
          exact Nat.lt_of_le_of_lt hle n.toNat_lt
        rcases mul?_of_lt hproduct with ⟨taken, htaken, hvalue⟩
        rw [hcount, hunit] at hvalue
        rcases sub?_of_le (hvalue ▸ hle) with ⟨left, hleft, hremains⟩
        have hmod : left.toNat = n.toNat % u.seconds := by
          have hsplit := Nat.div_add_mod' n.toNat u.seconds
          omega
        rw [if_neg hsome, if_neg hnone, htaken, Option.bind_some, hleft, Option.bind_some,
          Option.map_map, ← hmod]
        rcases Option.map_eq_some_iff.mp (hrest left) with ⟨parts, hparts, hcounts⟩
        rw [hparts, ← hcounts, ← hcount]
        rfl

theorem units_bounds : ∀ u ∈ units, 0 < u.seconds ∧ u.seconds < UInt64.size := by
  decide

/-- A part names its unit in the singular after a one. -/
theorem partText_eq (p : Nat × TimeUnit) :
    partText p = toString p.1 ++ " " ++ (if p.1 = 1 then p.2.name else p.2.name ++ "s") := by
  rw [partText]
  by_cases hone : p.1 = 1
  · rw [if_pos hone, if_pos hone, String.append_empty]
  · rw [if_neg hone, if_neg hone, String.append_assoc]

/-- What is shown of a number of seconds are the first counts of its only
    breakdown that are not zero, each with its unit in the singular after a
    one. The text says which parts these are. With room for all five it
    determines the seconds; with room for one at least, and something to show,
    what it amounts to is less than the smallest unit shown below the truth.
    More room only adds to the text. The program counts these parts in words
    without leaving their range. -/
theorem text_faithful (seconds : UInt64) (granularity : Nat) :
    (∃! b : Breakdown, b.total = seconds.toNat) ∧
    (∀ b : Breakdown, b.total = seconds.toNat →
      text seconds.toNat granularity =
        ", ".intercalate (((b.counts.filter fun p => p.1 ≠ 0).take granularity).map fun p =>
          toString p.1 ++ " " ++ (if p.1 = 1 then p.2 else p.2 ++ "s"))) ∧
    (∃ shown, read? (text seconds.toNat granularity) = some shown ∧
      (5 ≤ granularity → value shown = seconds.toNat) ∧
      (1 ≤ granularity → 0 < seconds.toNat → ∃ p, shown.getLast? = some p ∧
        value shown ≤ seconds.toNat ∧ seconds.toNat < value shown + p.2.seconds)) ∧
    (5 ≤ granularity → ∀ other : UInt64,
      text other.toNat granularity = text seconds.toNat granularity → other = seconds) ∧
    (∃ more, text seconds.toNat (granularity + 1) = text seconds.toNat granularity ++ more) ∧
    (wordPartsOf units seconds).map (List.map fun p => (p.1.toNat, p.2))
      = some (parts seconds.toNat) := by
  refine ⟨existsUnique_breakdown _, fun b hb => ?_, ⟨_, read?_text _ _, fun hall => ?_,
    fun hroom hpos => ?_⟩, fun hall other hsame => ?_, exists_text_succ _ _, ?_⟩
  · rw [← hb, ← parts_total, ← List.map_take, List.map_map]
    refine congrArg _ (List.map_congr_left fun p _ => ?_)
    exact partText_eq p
  · rw [take_parts hall, value_parts]
  · have hbounds := value_take_bounds (fun u hu => (units_bounds u hu).1) seconds.toNat granularity
    cases hlast : ((parts seconds.toNat).take granularity).getLast? with
    | none =>
        rcases List.take_eq_nil_iff.mp (List.getLast?_eq_none_iff.mp hlast) with hzero | hnil
        · exact absurd hzero (Nat.ne_of_gt hroom)
        · exact absurd hnil (parts_ne_nil hpos)
    | some p => exact ⟨p, rfl, hbounds.1, hbounds.2 p hlast⟩
  · have hread := read?_text other.toNat granularity
    rw [hsame, read?_text, take_parts hall, take_parts hall] at hread
    have hvalue := congrArg value (Option.some.inj hread)
    rw [value_parts, value_parts] at hvalue
    exact UInt64.toNat_inj.mp hvalue.symm
  · exact wordPartsOf_eq units_bounds seconds

example : text 694861 2 = "1 week, 1 day" := by
  decide

end SoftPlc.Uptime
