import SoftPlc.Text.Hex

/-!
# Control addresses

The endpoint at which the engine takes commands, and its canonical text. An
IPv6 address has many spellings; error messages use the recommended one
(lowercase, without leading zeros, the longest run of zero groups written as
`::`), so that equal addresses read alike. An address that maps an IPv4 one is
written with its last four bytes in decimal; the other embeddings are not, as
they are ordinary addresses to everything but their own protocol.

A run of zeros is only worth abbreviating when it has two groups, and among
runs of equal length the first is taken.

## Main definitions

* `Address`: An endpoint, as numbers or by a given name.
* `Address.parse?`: The endpoint a text denotes.
* `Address.text`: Its canonical text.
-/

namespace SoftPlc

/-- An endpoint of the control port. -/
inductive Address where
  /-- Four bytes and a port. -/
  | v4 (bytes : List UInt8) (port : UInt16)
  /-- Eight groups, the interface it is bound to (zero for none) and a port. -/
  | v6 (groups : List UInt16) (scope : UInt32) (port : UInt16)
  /-- An endpoint that is known by a name only. -/
  | named (label : String)
  deriving DecidableEq, Repr, Inhabited

namespace Address

/-- A number in decimal digits, below a bound. -/
def decimal? (bound : Nat) (s : String) : Option Nat :=
  if s.isEmpty || !s.all Char.isDigit then none
  else
    let n := Nat.ofDigitChars 10 s.toList 0
    if n < bound then some n else none

/-- A group of one to four hexadecimal digits. -/
def group? (s : String) : Option UInt16 :=
  if s.isEmpty || s.length > 4 then none
  else (s.toList.foldlM (fun n c => (Text.hexValue? c).map (n * 16 + ·)) 0).map UInt16.ofNat

/-- The four bytes of a dotted address. -/
def dotted? (s : String) : Option (List UInt8) :=
  let fields := s.splitOn "."
  if fields.length = 4 then fields.mapM fun f => (decimal? 256 f).map UInt8.ofNat else none

/-- The groups of a list of fields; a last field may be dotted and is then
    two groups. -/
def groups? : List String → Option (List UInt16)
  | [] => some []
  | [field] =>
    match dotted? field with
    | some [a, b, c, d] =>
      some [UInt16.ofNat (a.toNat * 256 + b.toNat), UInt16.ofNat (c.toNat * 256 + d.toNat)]
    | _ => (group? field).map ([·])
  | field :: rest => do
    let g ← group? field
    let gs ← groups? rest
    some (g :: gs)

/-- The groups on one side of a `::`, none if nothing is written there. -/
def side? (s : String) : Option (List UInt16) :=
  if s.isEmpty then some [] else groups? (s.splitOn ":")

/-- The eight groups of an IPv6 address. -/
def eightGroups? (s : String) : Option (List UInt16) :=
  match s.splitOn "::" with
  | [all] => do
    let gs ← side? all
    if gs.length = 8 then some gs else none
  | [left, right] => do
    let front ← side? left
    let back ← side? right
    if front.length + back.length < 8 then
      some (front ++ List.replicate (8 - front.length - back.length) 0 ++ back)
    else none
  | _ => none

/-- The endpoint a text denotes. -/
def parse? (s : String) : Option Address :=
  match s.splitOn "]:" with
  | [host, port] => do
    let port ← decimal? 65536 port
    if !host.startsWith "[" then none
    else match (host.drop 1).toString.splitOn "%" with
      | [groups] => do
        let gs ← eightGroups? groups
        some (.v6 gs 0 (UInt16.ofNat port))
      | [groups, scope] => do
        let gs ← eightGroups? groups
        let scope ← decimal? 4294967296 scope
        some (.v6 gs (UInt32.ofNat scope) (UInt16.ofNat port))
      | _ => none
  | _ =>
    match s.splitOn ":" with
    | [host, port] => do
      let bytes ← dotted? host
      let port ← decimal? 65536 port
      some (.v4 bytes (UInt16.ofNat port))
    | _ => none

/-- How many zero groups follow each other from a position on. -/
def zerosAt (groups : List UInt16) (i : Nat) : Nat :=
  ((groups.drop i).takeWhile (· == 0)).length

/-- The position of the longest run of zero groups and its length; the first
    one of several. -/
def longestZeros (groups : List UInt16) : Nat × Nat :=
  (List.range groups.length).foldl
    (fun best i => if best.2 < zerosAt groups i then (i, zerosAt groups i) else best) (0, 0)

/-- Groups in hexadecimal, with colons between. -/
def groupsText (groups : List UInt16) : String :=
  ":".intercalate (groups.map fun g => String.ofList (Text.hexDigits g.toNat))

/-- The canonical text of eight groups. -/
def hostText (groups : List UInt16) : String :=
  match groups with
  | [0, 0, 0, 0, 0, 0xFFFF, a, b] =>
    "::ffff:" ++ ".".intercalate
      ([a.toNat / 256, a.toNat % 256, b.toNat / 256, b.toNat % 256].map toString)
  | _ =>
    let (start, length) := longestZeros groups
    if length < 2 then groupsText groups
    else groupsText (groups.take start) ++ "::" ++ groupsText (groups.drop (start + length))

/-- The canonical text of an endpoint. -/
def text : Address → String
  | v4 bytes port => ".".intercalate (bytes.map toString) ++ ":" ++ toString port
  | v6 groups scope port =>
    "[" ++ hostText groups ++ (if scope = 0 then "" else "%" ++ toString scope) ++ "]:"
      ++ toString port
  | named label => label

end Address

end SoftPlc
