/-!
# Uptime

How long the engine has been running, as an operator reads it: weeks, days,
hours, minutes and seconds, greatest first, leaving out what is zero.

The list of parts is computed first and cut to the wanted number of parts
afterwards. Dropping the least parts only ever loses less than one of the
smallest unit that is left, and a coarser text is the beginning of a finer
one.

## Main definitions

* `units`: The units, greatest first.
* `parts`: The non-zero parts of a number of seconds.
* `value`: The seconds that some parts amount to.
* `text`: The parts that are shown, as text.

## Theorems

* `value_parts`: All parts together are the whole.
-/

namespace SoftPlc.Uptime

/-- A unit of time: its length in seconds and its name in the singular. -/
structure TimeUnit where
  seconds : Nat
  name : String
  deriving DecidableEq, Repr

/-- The units, greatest first. Each is a whole multiple of the next. -/
def units : List TimeUnit :=
  [⟨604800, "week"⟩, ⟨86400, "day"⟩, ⟨3600, "hour"⟩, ⟨60, "minute"⟩, ⟨1, "second"⟩]

/-- How often each unit fits into what the greater units left over, without
    the units that do not fit at all. -/
def partsOf : List TimeUnit → Nat → List (Nat × TimeUnit)
  | [], _ => []
  | u :: rest, seconds =>
    let count := seconds / u.seconds
    if count = 0 then partsOf rest seconds
    else (count, u) :: partsOf rest (seconds % u.seconds)

/-- The non-zero parts of a number of seconds, greatest first. -/
def parts (seconds : Nat) : List (Nat × TimeUnit) :=
  partsOf units seconds

/-- The seconds that some parts amount to. -/
def value : List (Nat × TimeUnit) → Nat
  | [] => 0
  | (count, u) :: rest => count * u.seconds + value rest

/-- One part: a count and the unit's name, in the singular after a one. -/
def partText (p : Nat × TimeUnit) : String :=
  toString p.1 ++ " " ++ p.2.name ++ (if p.1 = 1 then "" else "s")

/-- A number of seconds as text, with at most `granularity` parts. -/
def text (seconds granularity : Nat) : String :=
  ", ".intercalate (((parts seconds).take granularity).map partText)

/-- The parts amount to the whole, up to what none of the units can express. -/
theorem value_partsOf (us : List TimeUnit) (seconds : Nat) :
    value (partsOf us seconds) + us.foldl (fun left u => left % u.seconds) seconds = seconds := by
  induction us generalizing seconds with
  | nil => simp [partsOf, value]
  | cons u rest ih =>
    have left := ih (seconds % u.seconds)
    have split := Nat.div_add_mod' seconds u.seconds
    by_cases none : seconds / u.seconds = 0
    · have whole : seconds % u.seconds = seconds := by
        rw [none] at split
        omega
      rw [whole] at left
      simpa [partsOf, none, whole] using left
    · simp only [partsOf, if_neg none, value, List.foldl_cons]
      omega

/-- All parts together are the whole, since seconds are left over by nothing. -/
theorem value_parts (seconds : Nat) : value (parts seconds) = seconds := by
  have nothing : units.foldl (fun left u => left % u.seconds) seconds = 0 := by
    simp [units, Nat.mod_one]
  simpa [parts, nothing] using value_partsOf units seconds

end SoftPlc.Uptime
