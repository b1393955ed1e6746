/-!
# UTF-8

Reading bytes as text. Everything the supervisor shows was bytes first: the
engine's replies, the compiler's output, the paths a caller hands in. Three
readers look at the same bytes with different patience. A reply is read
leniently, each run of bytes that belongs to no code point becoming one
replacement character; a line of compiler output is read strictly; a quoted
path shows the offending bytes themselves. All three are views of one
decoding into pieces, so they cannot disagree about where a code point ends.

The decoder takes one byte at a time and carries what it has seen of an
unfinished code point, together with the bounds of the byte that may come
next. Those bounds are what excludes overlong forms, surrogates and code
points past the last plane: they differ from `0x80..0xBF` only after `0xE0`,
`0xED`, `0xF0` and `0xF4`. A byte outside the bounds closes the unfinished
run, which is then a stray piece of its own, and is read again as a first
byte. So the stray pieces are the longest runs that could still have become a
code point, and every other impossible byte stands alone.

## Main definitions

* `Piece`: One code point, or a run of bytes that belongs to none.
* `Decoder.feed`: The decoder's step on one byte.
* `pieces`: A byte string cut into pieces.
* `decode?`: The text, if every byte belongs to a code point.
* `lossy`: The text with each stray run replaced.
-/

namespace SoftPlc.Text

/-- A stretch of a byte string: one code point, or bytes that belong to none. -/
inductive Piece where
  | char (c : Char)
  | stray (bytes : List UInt8)
  deriving DecidableEq, Repr, Inhabited

namespace Utf8

/-- The bytes of a code point that is not complete yet. -/
structure Unfinished where
  /-- The bytes seen, newest first. -/
  bytes : List UInt8
  /-- How many bytes are missing, at least one. -/
  missing : Nat
  /-- The least byte that may come next. -/
  low : UInt8
  /-- The greatest byte that may come next. -/
  high : UInt8
  /-- The bits collected so far. -/
  value : Nat
  deriving DecidableEq, Repr

/-- What a first byte announces; `none` if no code point of several bytes
    begins with it. -/
def announced (b : UInt8) : Option Unfinished :=
  if b < 0xC2 then none
  else if b < 0xE0 then some ⟨[b], 1, 0x80, 0xBF, b.toNat % 32⟩
  else if b = 0xE0 then some ⟨[b], 2, 0xA0, 0xBF, 0⟩
  else if b = 0xED then some ⟨[b], 2, 0x80, 0x9F, 13⟩
  else if b < 0xF0 then some ⟨[b], 2, 0x80, 0xBF, b.toNat % 16⟩
  else if b = 0xF0 then some ⟨[b], 3, 0x90, 0xBF, 0⟩
  else if b < 0xF4 then some ⟨[b], 3, 0x80, 0xBF, b.toNat % 8⟩
  else if b = 0xF4 then some ⟨[b], 3, 0x80, 0x8F, 4⟩
  else none

/-- The decoder between two bytes. -/
structure Decoder where
  /-- The pieces that are complete, newest first. -/
  done : List Piece := []
  /-- The code point that is being read, if one is. -/
  unfinished : Option Unfinished := none
  deriving DecidableEq, Repr

namespace Decoder

/-- Reads a byte where a code point may begin. -/
def first (d : Decoder) (b : UInt8) : Decoder :=
  if b < 0x80 then { done := .char (Char.ofNat b.toNat) :: d.done }
  else match announced b with
    | some u => { d with unfinished := some u }
    | none => { done := .stray [b] :: d.done }

/-- Gives up the code point that is being read. -/
def close (d : Decoder) : Decoder :=
  match d.unfinished with
  | some u => { done := .stray u.bytes.reverse :: d.done }
  | none => d

/-- Reads one byte. -/
def feed (d : Decoder) (b : UInt8) : Decoder :=
  match d.unfinished with
  | none => d.first b
  | some u =>
    if u.low ≤ b ∧ b ≤ u.high then
      let value := u.value * 64 + b.toNat % 64
      if u.missing ≤ 1 then { done := .char (Char.ofNat value) :: d.done }
      else { d with unfinished := some ⟨b :: u.bytes, u.missing - 1, 0x80, 0xBF, value⟩ }
    -- The byte is no part of this code point, but another may begin with it.
    else d.close.first b

end Decoder

/-- A byte string cut into code points and stray runs. -/
def pieces (bytes : List UInt8) : List Piece :=
  (bytes.foldl Decoder.feed {}).close.done.reverse

/-- The code point of a piece. -/
def char? : Piece → Option Char
  | .char c => some c
  | .stray _ => none

/-- The text of a byte string, if all of it is text. -/
def decode? (bytes : List UInt8) : Option (List Char) :=
  let ps := pieces bytes
  if ps.all fun p => (char? p).isSome then some (ps.filterMap char?) else none

/-- The character that stands for bytes that are no text. -/
def replacement : Char := '\uFFFD'

/-- The text of a byte string, each stray run replaced by one character. -/
def lossy (bytes : List UInt8) : List Char :=
  (pieces bytes).map fun p => (char? p).getD replacement

/-- The bytes of a text. -/
def encode (s : String) : List UInt8 :=
  s.toUTF8.toList

end Utf8

end SoftPlc.Text
