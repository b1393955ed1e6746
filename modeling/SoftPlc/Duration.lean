/-!
# Spans of time

Timeouts and grace periods are spans of whole nanoseconds. The only thing
ever shown of one is its text in an error message: the largest unit that
fits at least once, with as many decimals as the value needs and no more. So
a timeout of 1500 ms reads `1.5s`, one of 40 ms reads `40ms`.

## Main definitions

* `Duration`: A span of time.
* `Duration.atLeast`: The longer of two spans, for settings with a floor.
* `Duration.text`: The form shown in messages.
-/

namespace SoftPlc

/-- A span of time in nanoseconds. -/
structure Duration where
  nanos : Nat
  deriving DecidableEq, Repr, Inhabited

namespace Duration

/-- Whole seconds and the nanoseconds beyond them. -/
def ofParts (seconds nanos : Nat) : Duration :=
  ⟨seconds * 1000000000 + nanos⟩

/-- Whole milliseconds. -/
def ofMillis (ms : Nat) : Duration :=
  ⟨ms * 1000000⟩

/-- The whole seconds of a span. -/
def seconds (d : Duration) : Nat :=
  d.nanos / 1000000000

/-- The nanoseconds of a span beyond its whole seconds. -/
def subsecond (d : Duration) : Nat :=
  d.nanos % 1000000000

/-- The longer of two spans. -/
def atLeast (floor d : Duration) : Duration :=
  ⟨max floor.nanos d.nanos⟩

/-- The first `places` decimals of `n / 10 ^ places`, without trailing
    zeros; nothing at all if they are all zero. -/
def decimals (places n : Nat) : List Char :=
  let digits := (Nat.toDigits 10 n)
  let padded := List.replicate (places - digits.length) '0' ++ digits
  match (padded.reverse.dropWhile (· == '0')).reverse with
  | [] => []
  | ds => '.' :: ds

/-- A span in a unit of `10 ^ places` nanoseconds. -/
def inUnit (places : Nat) (name : String) (d : Duration) : String :=
  let whole := toString (d.nanos / Nat.pow 10 places)
  whole ++ String.ofList (decimals places (d.nanos % Nat.pow 10 places)) ++ name

/-- The form shown in messages. -/
def text (d : Duration) : String :=
  if 1000000000 ≤ d.nanos then d.inUnit 9 "s"
  else if 1000000 ≤ d.nanos then d.inUnit 6 "ms"
  else if 1000 ≤ d.nanos then d.inUnit 3 "µs"
  else d.inUnit 0 "ns"

end Duration

end SoftPlc
