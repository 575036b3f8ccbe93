import ConnectorCatalog.Json.Record
import ConnectorCatalog.Json.Shape

/-!
# What an answer holds

A body is one JSON value. Where only some members of an object are asked for, the others are passed
over as they stand: their strings need not be UTF-8, and their numbers and their depth have no bound
(`wantedMembers`). The bytes are walked one by one for that, each seen as a character
(`byteView`).
-/

namespace ConnectorCatalog.Registry

/-- How deep values in a body may be nested. -/
def deepestNesting : Nat := 127

/-- The JSON value that some bytes hold, if it is nested at most so deep. -/
def valueOf? (deepest : Nat) (bytes : List UInt8) : Option Json := do
  let text ← String.fromUTF8? ⟨bytes.toArray⟩
  match Json.read text.toList with
  | .ok j => if j.nestingDepth ≤ deepest then some j.canonical else none
  | .error _ => none

/-- The JSON value that a body holds. -/
def bodyValue? (body : List UInt8) : Option Json := valueOf? deepestNesting body

/-- The bytes that are seen as some characters. -/
def viewedBytes (s : List Char) : List UInt8 := s.map fun c => UInt8.ofNat c.toNat

/-- What stands in a view up to the rest that is left of it. -/
def upTo (s rest : List Char) : List Char := s.take (s.length - rest.length)

/-- The members of an object that are fields of a record, in the order of the text, and what is left
behind the object; `fuel` bounds their number. -/
def wantedMembers (fields : List Shape.Field) :
    Nat → Bool → List Char → Option (List (String × Json) × List Char)
  | 0, _, _ => none
  | fuel + 1, first, s => do
    match ← (Json.nextMember first s).toOption with
    | (false, r) => return ([], r)
    | (true, s) =>
      let r ← (Json.skipString 0 s).toOption
      let key ← (← valueOf? 0 (viewedBytes ('"' :: upTo s r))).text?
      let s ← (Json.readColon r).toOption
      let r ← (Json.skipValue (2 * s.length + 2) s).toOption
      if (Shape.field? fields key).isNone then wantedMembers fields fuel false r
      else
        -- the object is the first level
        let value ← valueOf? (deepestNesting - 1) (viewedBytes (upTo s r))
        let (ms, r) ← wantedMembers fields fuel false r
        return ((key, value) :: ms, r)

/-- The members of a record called `name` that a body holds. -/
def bodyMembers? (name : String) (fields : List Shape.Field) (body : List UInt8) :
    Option (List (String × Json)) := do
  let j ← match Json.skipSpace (body.map byteView) with
    | '\x7b' :: s => do
      let (ms, r) ← wantedMembers fields (s.length + 1) true s
      if (Json.skipSpace r).isEmpty then some (.object ms) else none
    | _ => bodyValue? body
  (Shape.members name fields j).toOption

end ConnectorCatalog.Registry
