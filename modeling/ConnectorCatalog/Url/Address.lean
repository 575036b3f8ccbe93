import ConnectorCatalog.Number.Power
import ConnectorCatalog.Text.Blank
import ConnectorCatalog.Url.Percent

/-!
# Internet addresses

Addresses of four bytes may be written with fewer numbers, the last of which fills what is left, and
each number in decimal, octal or hexadecimal. Addresses of eight pieces are written in hexadecimal;
two colons stand for a run of zero pieces, and four bytes in decimal may end one.
-/

namespace ConnectorCatalog

/-- An address of four bytes. -/
structure Ipv4 where
  value : Nat
deriving DecidableEq, Repr

/-- An address of eight pieces of 16 bits. -/
structure Ipv6 where
  pieces : List Nat
deriving DecidableEq, Repr

/-- The number that digits of a base make, if all of them are such digits. -/
def numberIn? (base : Nat) (digits : List Char) : Option Nat :=
  digits.foldlM (fun n c =>
    match hexValue? c with
    | some d => if d < base then some (base * n + d) else none
    | none => none) 0

namespace Ipv4

/-- A number of an address: hexadecimal behind `0x`, octal behind another zero. -/
def part? (s : List Char) : Option Nat :=
  match s with
  | [] => none
  | '0' :: 'x' :: r => numberIn? 16 r
  | '0' :: 'X' :: r => numberIn? 16 r
  | ['0'] => some 0
  | '0' :: r => numberIn? 8 r
  | s => numberIn? 10 s

/-- The parts between dots. A dot at the end counts for nothing. -/
def parts (s : List Char) : List (List Char) :=
  let ps := cutAll (· == '.') s
  if 1 < ps.length && ps.getLast? == some [] then ps.dropLast else ps

/-- A host that ends in a number is meant to be an address. -/
def isMeant (s : List Char) : Bool :=
  match (parts s).getLast? with
  | some last => !last.isEmpty && (last.all Char.isDigit || (part? last).isSome)
  | none => false

/-- Reads an address. -/
def parse? (s : List Char) : Option Ipv4 := do
  let numbers ← (parts s).mapM part?
  let last ← numbers.getLast?
  let first := numbers.dropLast
  if 3 < first.length ∨ first.any (255 < ·) ∨ twoPow (8 * (4 - first.length)) ≤ last then none
  else
    let value := first.foldl (fun n b => 256 * n + b) 0
    some ⟨value * twoPow (8 * (4 - first.length)) + last⟩

/-- The bytes of an address. -/
def bytes (a : Ipv4) : List Nat :=
  [a.value / twoPow 24 % 256, a.value / twoPow 16 % 256, a.value / twoPow 8 % 256, a.value % 256]

/-- Writes an address as four decimal numbers. -/
def text (a : Ipv4) : List Char := joinWith ['.'] (a.bytes.map (Nat.toDigits 10))

end Ipv4

namespace Ipv6

/-- A piece: one to four hexadecimal digits. -/
def piece? (s : List Char) : Option Nat :=
  if s.isEmpty ∨ 4 < s.length then none else numberIn? 16 s

/-- A byte in decimal, without a zero in front. -/
def byte? (s : List Char) : Option Nat :=
  match s with
  | [] => none
  | '0' :: _ :: _ => none
  | s => if s.all Char.isDigit then (numberIn? 10 s).filter (· < 256) else none

/-- The two pieces that four bytes make. -/
def embedded? (s : List Char) : Option (List Nat) := do
  match ← (cutAll (· == '.') s).mapM byte? with
  | [a, b, c, d] => some [256 * a + b, 256 * c + d]
  | _ => none

/-- The pieces between colons; `atEnd` says that four bytes may end them. -/
def piecesOf? (atEnd : Bool) : List (List Char) → Option (List Nat)
  | [] => some []
  | [s] => if atEnd && s.contains '.' then embedded? s else (piece? s).map fun n => [n]
  | s :: rest => do some ((← piece? s) :: (← piecesOf? atEnd rest))

/-- The pieces of a text between two colons and an end, or none. -/
def run? (atEnd : Bool) (s : List Char) : Option (List Nat) :=
  if s.isEmpty then some [] else piecesOf? atEnd (cutAll (· == ':') s)

/-- Reads an address. Two colons stand for one zero piece at least. -/
def parse? (s : List Char) : Option Ipv6 := do
  match cutAround [':', ':'] s with
  | none =>
    let ps ← run? true s
    if ps.length = 8 then some ⟨ps⟩ else none
  | some (before, after) =>
    let front ← run? false before
    let back ← run? true after
    let given := front.length + back.length
    if given < 8 then some ⟨front ++ List.replicate (8 - given) 0 ++ back⟩ else none

/-- How many zeros a list begins with. -/
def zerosAhead : List Nat → Nat
  | 0 :: r => zerosAhead r + 1
  | _ => 0

/-- The place and length of the first longest run of zeros. `before` pieces have been passed. -/
def longestZeros (before : Nat) : List Nat → Nat × Nat
  | [] => (before, 0)
  | p :: ps =>
    let here := zerosAhead (p :: ps)
    let later := longestZeros (before + 1) ps
    if later.2 ≤ here then (before, here) else later

/-- Pieces in hexadecimal with colons between them. -/
def piecesText (ps : List Nat) : List Char := joinWith [':'] (ps.map (Nat.toDigits 16))

/-- Writes an address; the first longest run of two or more zeros becomes two colons. -/
def text (a : Ipv6) : List Char :=
  let (start, length) := longestZeros 0 a.pieces
  if length < 2 then piecesText a.pieces
  else piecesText (a.pieces.take start) ++ [':', ':'] ++ piecesText (a.pieces.drop (start + length))

end Ipv6

end ConnectorCatalog
