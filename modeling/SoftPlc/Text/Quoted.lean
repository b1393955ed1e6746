import SoftPlc.Text.Hex
import SoftPlc.Text.Hidden
import SoftPlc.Text.Utf8

/-!
# Quoted text

How a text that came from outside is shown inside a message: between double
quotes, on one line, so that the reader can tell where it begins and ends.
Engine replies, program paths and the reasons in log records are quoted.

A quote and a backslash get a backslash before them, the common controls have
a letter, and every other hidden character is written by number between
braces. An apostrophe is left alone, the text being delimited by double
quotes. A path may hold bytes that are no text at all; those are shown one by
one as two hexadecimal digits, and everything else in it as in a text.

Quoting a text loses nothing. `unquote?` reads it back one character at a
time, keeping only its place in the form and what it has read so far; since
the braces say where a number ends, what follows an escape never matters.

## Main definitions

* `escape`: The form of one character.
* `quote`: A text between quotes.
* `quoteBytes`: A path between quotes.
* `unquote?`: The text that a quoted text stands for.

## Theorems

* `feed_escape`: The form of a character is read as the character.
* `unquote?_quote`: A quoted text is read back.
-/

namespace SoftPlc.Text

/-- The form of one character inside quotes. -/
def escape (c : Char) : List Char :=
  if c = '"' then ['\\', '"']
  else if c = '\\' then ['\\', '\\']
  else if c = '\n' then ['\\', 'n']
  else if c = '\r' then ['\\', 'r']
  else if c = '\t' then ['\\', 't']
  else if c = '\x00' then ['\\', '0']
  else if isHidden c then ['\\', 'u', '\x7b'] ++ hexDigits c.toNat ++ ['\x7d']
  else [c]

/-- A text between quotes. -/
def quote (s : List Char) : List Char :=
  '"' :: (s.flatMap escape ++ ['"'])

/-- A stray byte of a path, by its two uppercase hexadecimal digits. -/
def escapeByte (b : UInt8) : List Char :=
  ['\\', 'x'] ++ (Nat.toDigits 16 (b.toNat / 16) ++ Nat.toDigits 16 (b.toNat % 16)).map Char.toUpper

/-- The form of one piece of a path. -/
def escapePiece : Piece → List Char
  | .char c => escape c
  | .stray bytes => bytes.flatMap escapeByte

/-- A path between quotes. -/
def quoteBytes (bytes : List UInt8) : List Char :=
  '"' :: ((Utf8.pieces bytes).flatMap escapePiece ++ ['"'])

/-- A quoted text, from a text. -/
def quoted (s : String) : String :=
  String.ofList (quote s.toList)

/-- A quoted path, from its bytes. -/
def quotedPath (bytes : List UInt8) : String :=
  String.ofList (quoteBytes bytes)

/-- A path as it is shown without quotes: stray bytes are replaced. -/
def shownPath (bytes : List UInt8) : String :=
  String.ofList (Utf8.lossy bytes)

/-- Where the reader of a quoted text stands. -/
inductive Place where
  /-- Before the first quote. -/
  | before
  | inside
  /-- Behind a backslash. -/
  | escaped
  /-- Before the brace that opens a number. -/
  | opening
  /-- Between braces, with the number read so far. -/
  | number (n : Nat)
  /-- Behind the last quote. -/
  | behind
  deriving DecidableEq, Repr, Inhabited

/-- The reader of a quoted text between two characters. -/
structure Unquoting where
  place : Place := .before
  /-- What the characters so far stand for, newest first. -/
  text : List Char := []
  deriving DecidableEq, Repr, Inhabited

namespace Unquoting

/-- Goes to a place. -/
def goto (u : Unquoting) (place : Place) : Unquoting :=
  { u with place }

/-- Takes a character into the text. -/
def push (u : Unquoting) (c : Char) : Unquoting :=
  ⟨.inside, c :: u.text⟩

/-- Reads one character of a quoted text. -/
def feed (u : Unquoting) (c : Char) : Option Unquoting :=
  match u.place with
  | .before => if c = '"' then some (u.goto .inside) else none
  | .inside =>
    if c = '"' then some (u.goto .behind)
    else if c = '\\' then some (u.goto .escaped)
    else some (u.push c)
  | .escaped =>
    if c = '"' then some (u.push '"')
    else if c = '\\' then some (u.push '\\')
    else if c = 'n' then some (u.push '\n')
    else if c = 'r' then some (u.push '\r')
    else if c = 't' then some (u.push '\t')
    else if c = '0' then some (u.push '\x00')
    else if c = 'u' then some (u.goto .opening)
    else none
  | .opening => if c = '\x7b' then some (u.goto (.number 0)) else none
  | .number n =>
    if c = '\x7d' then some (u.push (Char.ofNat n))
    else (hexValue? c).map fun d => u.goto (.number (n * 16 + d))
  | .behind => none

end Unquoting

/-- The text that a quoted text stands for. -/
def unquote? (s : List Char) : Option (List Char) :=
  match s.foldlM Unquoting.feed {} with
  | some ⟨.behind, text⟩ => some text.reverse
  | _ => none

/-- Reading a number's digits gives the number. -/
theorem feed_hexDigits (n : Nat) (text : List Char) :
    (hexDigits n).foldlM Unquoting.feed ⟨.number 0, text⟩ = some ⟨.number n, text⟩ := by
  have digit : ∀ m d, d < 16 →
      Unquoting.feed ⟨.number m, text⟩ d.digitChar = some ⟨.number (m * 16 + d), text⟩ := by
    intro m d hd
    have other : d.digitChar ≠ '\x7d' := by
      revert d
      decide
    simp only [Unquoting.feed, if_neg other, hexValue?_digitChar d hd, Option.map_some,
      Unquoting.goto]
  induction n using Nat.strongRecOn with
  | ind n ih =>
    rw [hexDigits_eq]
    split
    · next hn => simp [digit 0 n hn]
    · next hn =>
      rw [List.foldlM_append, ih (n / 16) (by omega)]
      have whole : n / 16 * 16 + n % 16 = n := by omega
      simp [digit (n / 16) (n % 16) (by omega), whole]

/-- Reading the form of a character gives the character. -/
theorem feed_escape (c : Char) (text : List Char) :
    (escape c).foldlM Unquoting.feed ⟨.inside, text⟩ = some ⟨.inside, c :: text⟩ := by
  unfold escape
  split
  · next h => subst h; rfl
  split
  · next h => subst h; rfl
  split
  · next h => subst h; rfl
  split
  · next h => subst h; rfl
  split
  · next h => subst h; rfl
  split
  · next h => subst h; rfl
  split
  · have opened : ['\\', 'u', '\x7b'].foldlM Unquoting.feed ⟨.inside, text⟩ =
        some ⟨.number 0, text⟩ := rfl
    rw [List.foldlM_append, List.foldlM_append, opened]
    simp [feed_hexDigits, Unquoting.feed, Unquoting.push]
  · next quote backslash _ _ _ _ _ => simp [Unquoting.feed, Unquoting.push, quote, backslash]

/-- Reading the forms of several characters gives the characters. -/
theorem feed_flatMap_escape (s text : List Char) :
    (s.flatMap escape).foldlM Unquoting.feed ⟨.inside, text⟩ =
      some ⟨.inside, s.reverse ++ text⟩ := by
  induction s generalizing text with
  | nil => rfl
  | cons c rest ih => simp [List.flatMap_cons, List.foldlM_append, feed_escape, ih]

/-- A quoted text is read back. -/
theorem unquote?_quote (s : List Char) : unquote? (quote s) = some s := by
  have whole : (quote s).foldlM Unquoting.feed {} = some ⟨.behind, s.reverse⟩ := by
    simp [quote, List.foldlM_append, feed_flatMap_escape, Unquoting.feed, Unquoting.goto]
  rw [unquote?, whole]
  simp

end SoftPlc.Text
