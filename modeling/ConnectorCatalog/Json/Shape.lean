import ConnectorCatalog.Json.Mismatch
import ConnectorCatalog.Number.Range

/-!
# Shapes of JSON values

Checks that a JSON value has an asked form. A record is an object whose members are looked at in
their order, members that it does not know being passed over, or a list of its fields in their
order. The first mismatch met is the one reported.
-/

namespace ConnectorCatalog

/-- Accepts a value or says why not. -/
abbrev Shape := Json → Except Mismatch Unit

namespace Shape

/-- Every value. -/
def any : Shape := fun _ => .ok ()

/-- A string. -/
def string : Shape
  | .string _ => .ok ()
  | j => .error (.invalidType j.found "a string")

/-- A truth value. -/
def bool : Shape
  | .bool _ => .ok ()
  | j => .error (.invalidType j.found "a boolean")

/-- An integer of a range called `name`. -/
def integer (name : String) (range : IntegerRange) : Shape
  | .number (.integer n) =>
    if range.has n then .ok ()
    else .error (.invalidValue (.number (.integer n)) name)
  | j => .error (.invalidType j.found name)

/-- A natural number below two to the power 32. -/
def u32 : Shape := integer "u32" .unsigned32

/-- A natural number below two to the power 64. -/
def u64 : Shape := integer "u64" .unsigned64

/-- An integer of 32 bits. -/
def i32 : Shape := integer "i32" .signed32

/-- Null or a value of a shape. -/
def nullable (s : Shape) : Shape
  | .null => .ok ()
  | j => s j

/-- Elements of a shape, one after the other. -/
def elements (s : Shape) : List Json → Except Mismatch Unit
  | [] => .ok ()
  | x :: xs => do s x; elements s xs

/-- A list whose elements have a shape. -/
def list (s : Shape) : Shape
  | .array xs => elements s xs
  | j => .error (.invalidType j.found "a sequence")

/-- Whether a record may lack a field. -/
inductive Presence
  /-- The field must be there. -/
  | required
  /-- The field may be missing. -/
  | optional
  /-- The field may be missing from an object, but not from a list. -/
  | nullable
deriving DecidableEq, Repr

/-- A field of a record, with other names it goes by. -/
structure Field where
  name : String
  aliases : List String
  presence : Presence
  shape : Shape

/-- A field that must be there. -/
def Field.required (name : String) (shape : Shape) : Field := ⟨name, [], .required, shape⟩

/-- A field that may be missing. -/
def Field.optional (name : String) (shape : Shape) : Field := ⟨name, [], .optional, shape⟩

/-- A field that may be null, or missing from an object. -/
def Field.orNull (name : String) (shape : Shape) : Field := ⟨name, [], .nullable, nullable shape⟩

/-- A field that may be null or missing. -/
def Field.optionalOrNull (name : String) (shape : Shape) : Field :=
  ⟨name, [], .optional, nullable shape⟩

/-- The field that goes by `key`. -/
def field? (fields : List Field) (key : String) : Option Field :=
  fields.find? fun f => f.name == key || f.aliases.contains key

/-- The known members of an object under their fields' names. `seen` holds the fields met so far. -/
def knownMembers (fields : List Field) :
    List (String × Json) → List (String × Json) → Except Mismatch (List (String × Json))
  | seen, [] => .ok seen.reverse
  | seen, (key, x) :: ms =>
    match field? fields key with
    | none => knownMembers fields seen ms
    | some f =>
      if seen.any fun m => m.1 == f.name then .error (.duplicateField f.name)
      else do
        f.shape x
        knownMembers fields ((f.name, x) :: seen) ms

/-- The first field that an object lacks. -/
def missing? (fields : List Field) (members : List (String × Json)) : Option Field :=
  fields.find? fun f => f.presence == .required && !members.any fun m => m.1 == f.name

/-- The elements of a list under the names of the fields. `n` elements came before. -/
def fieldsInOrder (expected : String) :
    Nat → List Field → List Json → Except Mismatch (List (String × Json))
  | _, [], [] => .ok []
  | n, [], xs => .error (.invalidLength (n + xs.length) "fewer elements in array")
  | n, f :: fs, [] =>
    if f.presence = .optional then fieldsInOrder expected n fs []
    else .error (.invalidLength n expected)
  | n, f :: fs, x :: xs => do
    f.shape x
    let ms ← fieldsInOrder expected (n + 1) fs xs
    .ok ((f.name, x) :: ms)

/-- The members of a record called `name`. -/
def members (name : String) (fields : List Field) : Json → Except Mismatch (List (String × Json))
  | .object ms => do
    let known ← knownMembers fields [] ms
    match missing? fields known with
    | some f => .error (.missingField f.name)
    | none => .ok known
  | .array xs =>
    let count := String.ofList (Json.decimalDigits fields.length)
    let unit := if fields.length = 1 then " element" else " elements"
    fieldsInOrder ("struct " ++ name ++ " with " ++ count ++ unit) 0 fields xs
  | j => .error (.invalidType j.found ("struct " ++ name))

/-- A record called `name`. -/
def record (name : String) (fields : List Field) : Shape := fun j => do
  let _ ← members name fields j
  .ok ()

end Shape

namespace Json

/-- The text of a string. -/
def text? : Json → Option String
  | string s => some s
  | _ => none

/-- The truth value. -/
def truth? : Json → Option Bool
  | bool b => some b
  | _ => none

/-- The integer. -/
def int? : Json → Option Int
  | number (.integer n) => some n
  | _ => none

/-- The elements of a list. -/
def elements? : Json → Option (List Json)
  | array xs => some xs
  | _ => none

/-- The members of an object. -/
def members? : Json → Option (List (String × Json))
  | object ms => some ms
  | _ => none

end Json

/-- The text of a member, empty if there is none. -/
def textMember (members : List (String × Json)) (name : String) : String :=
  ((members.lookup name).bind Json.text?).getD ""

/-- The text of a member, if it is there and not null. -/
def textMember? (members : List (String × Json)) (name : String) : Option String :=
  (members.lookup name).bind Json.text?

/-- The truth value of a member, false if there is none. -/
def truthMember (members : List (String × Json)) (name : String) : Bool :=
  ((members.lookup name).bind Json.truth?).getD false

/-- The elements of a member, none if it is missing. -/
def elementsMember (members : List (String × Json)) (name : String) : List Json :=
  ((members.lookup name).bind Json.elements?).getD []

end ConnectorCatalog
