import ConnectorCatalog.Number.Binary64

/-!
# JSON values

JSON values as they are read: the members of an object stand in the order of the text, repeated keys
included. `Json.canonical` sorts the members of every object by key and keeps the last of those with
the same key, which is what an object means here.
-/

namespace ConnectorCatalog

/-- A JSON number: an integer that fits 64 bits, or a finite floating-point number. -/
inductive Json.Number
  | integer (value : Int)
  | float (value : Binary64)
deriving DecidableEq, Repr

/-- A JSON value. -/
inductive Json
  | null
  | bool (value : Bool)
  | number (value : Json.Number)
  | string (value : String)
  | array (elements : List Json)
  | object (members : List (String × Json))
deriving Repr

namespace Json

/-- Members sorted by key with one member put in, in place of an earlier one with its key. -/
def putMember (key : String) (value : Json) : List (String × Json) → List (String × Json)
  | [] => [(key, value)]
  | (k, v) :: ms =>
    if key < k then (key, value) :: (k, v) :: ms
    else if key = k then (key, value) :: ms
    else (k, v) :: putMember key value ms

/-- Members sorted by key, the last of those with the same key. -/
def sortMembers (ms : List (String × Json)) : List (String × Json) :=
  ms.foldl (fun sorted m => putMember m.1 m.2 sorted) []

mutual

/-- The value with the members of every object sorted and without repeated keys. -/
def canonical : Json → Json
  | array xs => array (canonicalElements xs)
  | object ms => object (sortMembers (canonicalMembers ms))
  | null => null
  | bool b => bool b
  | number n => number n
  | string s => string s

/-- Canonical elements. -/
def canonicalElements : List Json → List Json
  | [] => []
  | x :: xs => x.canonical :: canonicalElements xs

/-- Members with canonical values, in their order. -/
def canonicalMembers : List (String × Json) → List (String × Json)
  | [] => []
  | (k, x) :: ms => (k, x.canonical) :: canonicalMembers ms

end

mutual

/-- How many arrays and objects stand inside one another. -/
def nestingDepth : Json → Nat
  | array xs => nestingDepthElements xs + 1
  | object ms => nestingDepthMembers ms + 1
  | null => 0
  | bool _ => 0
  | number _ => 0
  | string _ => 0

/-- The depth of the deepest element. -/
def nestingDepthElements : List Json → Nat
  | [] => 0
  | x :: xs => max x.nestingDepth (nestingDepthElements xs)

/-- The depth of the deepest member. -/
def nestingDepthMembers : List (String × Json) → Nat
  | [] => 0
  | (_, x) :: ms => max x.nestingDepth (nestingDepthMembers ms)

end

/-- An object with some members. -/
def ofMembers (ms : List (String × Json)) : Json := object (sortMembers ms)

/-- The last value of a member. -/
def member? (key : String) : Json → Option Json
  | object ms => (ms.reverse.find? fun m => m.1 == key).map Prod.snd
  | _ => none

/-- The value is an object. -/
def isObject : Json → Bool
  | object _ => true
  | _ => false

/-- The value is null. -/
def isNull : Json → Bool
  | null => true
  | _ => false

/-- An integer as a value. -/
def ofInt (n : Int) : Json := number (.integer n)

/-- A natural number as a value. -/
def ofNat (n : Nat) : Json := ofInt n

/-- Texts as a value. -/
def ofStrings (texts : List String) : Json := array (texts.map string)

/-- An optional value, null if absent. -/
def ofOption (x : Option Json) : Json := x.getD null

end Json

end ConnectorCatalog
