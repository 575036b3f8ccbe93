import ConnectorCatalog.Number.Range
import ConnectorCatalog.Text.Blank

/-!
# Versions

Semantic versions and their total order. A version with a pre-release comes before the release, and
identifiers compare one by one: numbers by value, names by character, numbers before names. Versions
equal in all of this are told apart by their build identifiers in the same way, so two texts that
denote equal versions are equal.
-/

namespace ConnectorCatalog

/-- An identifier of a pre-release or build: a number, with the count of its digits, or a name. -/
inductive VersionIdentifier
  | number (value digits : Nat)
  | name (text : List Char)
deriving DecidableEq, Repr

/-- A semantic version. -/
structure Version where
  major : Nat
  minor : Nat
  patch : Nat
  preRelease : List VersionIdentifier
  build : List VersionIdentifier
deriving DecidableEq, Repr

namespace VersionIdentifier

/-- The order of two texts by character. -/
def compareText : List Char → List Char → Ordering
  | [], [] => .eq
  | [], _ :: _ => .lt
  | _ :: _, [] => .gt
  | a :: s, b :: t => (compare a.toNat b.toNat).then (compareText s t)

/-- The order of two identifiers. -/
def order : VersionIdentifier → VersionIdentifier → Ordering
  | number m i, number n j => (compare m n).then (compare i j)
  | number _ _, name _ => .lt
  | name _, number _ _ => .gt
  | name s, name t => compareText s t

/-- The order of two lists of identifiers; of two that begin alike the shorter comes first. -/
def orderAll : List VersionIdentifier → List VersionIdentifier → Ordering
  | [], [] => .eq
  | [], _ :: _ => .lt
  | _ :: _, [] => .gt
  | a :: s, b :: t => (a.order b).then (orderAll s t)

/-- A character of an identifier. -/
def isIdentifierChar (c : Char) : Bool := c.isAlphanum || c == '-'

/-- The value of some digits. -/
def valueOf (digits : List Char) : Nat := digits.foldl (fun n c => 10 * n + (c.toNat - 48)) 0

/-- Reads an identifier. Where `leadingZeros` are refused, a number of several digits does not begin
with a zero. -/
def ofChars? (leadingZeros : Bool) (s : List Char) : Option VersionIdentifier :=
  if s.isEmpty || !s.all isIdentifierChar then none
  else if s.all Char.isDigit then
    if !leadingZeros && s.head? == some '0' && 1 < s.length then none
    else some (number (valueOf s) s.length)
  else some (name s)

/-- Reads identifiers with dots between them. -/
def listOfChars? (leadingZeros : Bool) (s : List Char) : Option (List VersionIdentifier) :=
  (cutAll (· == '.') s).mapM (ofChars? leadingZeros)

end VersionIdentifier

namespace Version

/-- The order of two pre-releases, where none at all comes last. -/
def preReleaseOrder : List VersionIdentifier → List VersionIdentifier → Ordering
  | [], [] => .eq
  | [], _ :: _ => .gt
  | _ :: _, [] => .lt
  | s, t => VersionIdentifier.orderAll s t

/-- The order of versions. -/
def order (a b : Version) : Ordering :=
  (compare a.major b.major).then <| (compare a.minor b.minor).then <|
    (compare a.patch b.patch).then <| (preReleaseOrder a.preRelease b.preRelease).then <|
      VersionIdentifier.orderAll a.build b.build

/-- Reads a number of 64 bits without leading zeros. -/
def number? (s : List Char) : Option Nat :=
  if s.isEmpty || !s.all Char.isDigit || (s.head? == some '0' && 1 < s.length) then none
  else
    let n := VersionIdentifier.valueOf s
    if IntegerRange.unsigned64.has n then some n else none

/-- Reads a text as a version. -/
def parse? (text : String) : Option Version := do
  let (release, build) := match cutAtFirst (· == '+') text.toList with
    | some (release, build) => (release, some build)
    | none => (text.toList, none)
  let (core, preRelease) := match cutAtFirst (· == '-') release with
    | some (core, preRelease) => (core, some preRelease)
    | none => (release, none)
  match cutAll (· == '.') core with
  | [major, minor, patch] =>
    let major ← number? major
    let minor ← number? minor
    let patch ← number? patch
    let preRelease ← match preRelease with
      | some s => VersionIdentifier.listOfChars? false s
      | none => some []
    let build ← match build with
      | some s => VersionIdentifier.listOfChars? true s
      | none => some []
    some { major, minor, patch, preRelease, build }
  | _ => none

end Version

end ConnectorCatalog
