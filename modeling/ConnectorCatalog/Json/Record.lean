import ConnectorCatalog.Json.Reader

/-!
# Reading records of texts

Reads a text as a record whose fields are all strings, without building a value: members that the
record does not know are passed over, however deep they are. The text is read up to the first fault,
be it one of JSON or a member that does not fit.
-/

namespace ConnectorCatalog.Json

/-- Passes over a string after its opening quote; `skip` characters belong to an escape. -/
def skipString : Nat → List Char → Reading (List Char)
  | _, [] => stopBefore .endInString []
  | skip + 1, _ :: r => skipString skip r
  | 0, c :: r =>
    if c = '"' then .ok r
    else if c = '\\' then
      match r with
      | [] => stopBefore .endInString []
      | e :: t =>
        if e = 'u' then
          match readHex t with
          | .ok _ => skipString 5 r
          | .error stop => .error stop
        else if (letterEscape? e).isSome then skipString 1 r
        else .error ⟨.invalidEscape, byteLength r - 1⟩
    else if c.toNat < 32 then stopBefore .controlCharacter (c :: r)
    else skipString 0 r

/-- Passes over a literal, a number or a string; `none` if an array or object begins here. -/
def skipScalar (s : List Char) : Reading (Option (List Char)) :=
  match s with
  | [] => stopAt .endInValue []
  | c :: r =>
    if c = '-' then (fun p => some p.2) <$> readNumeral .invalidNumber true r
    else if isDigit c then (fun p => some p.2) <$> readNumeral .invalidNumber false s
    else if c = '"' then some <$> skipString 0 r
    else Option.map Prod.snd <$> readScalar s

mutual

/-- Passes over a value; `fuel` bounds the number of values, elements and members. -/
def skipValue : Nat → List Char → Reading (List Char)
  | 0, s => stopAt .endInValue s
  | fuel + 1, s => do
    let s := skipSpace s
    match ← skipScalar s with
    | some r => .ok r
    | none =>
      match s with
      | '[' :: r =>
        match skipSpace r with
        | ']' :: r => .ok r
        | [] => stopAt .endInList []
        | r => skipElements fuel r
      | _ :: r =>
        match skipSpace r with
        | '\x7d' :: r => .ok r
        | [] => stopAt .endInObject []
        | r => skipMembers fuel r
      | [] => stopAt .endInValue []

/-- Passes over elements and the end of their list. -/
def skipElements : Nat → List Char → Reading (List Char)
  | 0, s => stopAt .endInList s
  | fuel + 1, s => do
    match skipSpace (← skipValue fuel s) with
    | ']' :: r => .ok r
    | ',' :: r => skipElements fuel r
    | [] => stopAt .endInList []
    | r => stopAt .expectedListCommaOrEnd r

/-- Passes over members and the end of their object. -/
def skipMembers : Nat → List Char → Reading (List Char)
  | 0, s => stopAt .endInObject s
  | fuel + 1, s => do
    match skipSpace s with
    | '"' :: r =>
      let r ← skipString 0 r
      let r ← readColon r
      match skipSpace (← skipValue fuel r) with
      | '\x7d' :: r => .ok r
      | ',' :: r => skipMembers fuel r
      | [] => stopAt .endInObject []
      | r => stopAt .expectedObjectCommaOrEnd r
    | [] => stopAt .endInObject []
    | r => stopAt .keyNotString r

end

/-- Refuses the value that begins here, since `expected` was to come. -/
def unfit {α : Type} (expected : String) (s : List Char) : Reading α := do
  match ← readScalar s with
  | some (x, r) => stopBefore (.unfit (.invalidType x.found expected)) r
  | none =>
    let found := if s.head? = some '[' then Found.sequence else Found.map
    stopBefore (.unfit (.invalidType found expected)) s

/-- Reads a string where one is asked for. -/
def readText (s : List Char) : Reading (String × List Char) :=
  match skipSpace s with
  | '"' :: r => readString r
  | r => unfit "a string" r

/-- Reads members up to the end of an object; `found` holds those of the record met so far, and
`fuel` bounds their number. -/
def readTextMembers (fields : List String) :
    Nat → Bool → List (String × String) → List Char → Reading (List (String × String) × List Char)
  | 0, _, _, s => stopAt .endInObject s
  | fuel + 1, first, found, s => do
    match ← nextMember first s with
    | (false, r) =>
      match fields.find? fun f => !found.any fun m => m.1 == f with
      | some f => stopBefore (.unfit (.missingField f)) r
      | none => .ok (found, r)
    | (true, r) =>
      let (key, r) ← readString r
      if fields.contains key then
        if found.any fun m => m.1 == key then
          -- the fault shows where the object would have to end
          match skipSpace r with
          | '\x7d' :: r => stopBefore (.unfit (.duplicateField key)) r
          | r => stopBefore (.unfit (.duplicateField key)) r
        else
          let (text, r) ← readText (← readColon r)
          readTextMembers fields fuel false ((key, text) :: found) r
      else
        let r ← readColon r
        readTextMembers fields fuel false found (← skipValue (2 * r.length + 2) r)

/-- Reads the end of a list all of whose elements have been read. -/
def readListEnd (s : List Char) : Reading (List Char) :=
  match skipSpace s with
  | [] => stopAt .endInList []
  | ']' :: r => .ok r
  | ',' :: r =>
    match skipSpace r with
    | ']' :: r => stopAt .trailingComma (']' :: r)
    | r => stopAt .trailingCharacters r
  | r => stopAt .trailingCharacters r

/-- Reads the elements of a list in the order of the fields; `n` have been read. -/
def readTextElements (expected : String) :
    Nat → List String → List Char → Reading (List (String × String) × List Char)
  | _, [], s => do .ok ([], ← readListEnd s)
  | n, f :: fs, s => do
    match ← nextElement (n == 0) s with
    | (false, r) => stopBefore (.unfit (.invalidLength n expected)) r
    | (true, r) =>
      let (text, r) ← readText r
      let (rest, r) ← readTextElements expected (n + 1) fs r
      .ok ((f, text) :: rest, r)

/-- Reads a record called `name` with some fields, all of them strings. -/
def readTexts (name : String) (fields : List String) (s : List Char) :
    Reading (List (String × String) × List Char) :=
  match skipSpace s with
  | [] => stopAt .endInValue []
  | '\x7b' :: r => readTextMembers fields (r.length + 1) true [] r
  | '[' :: r =>
    let expected := "struct " ++ name ++ " with " ++ toString fields.length ++ " elements"
    readTextElements expected 0 fields r
  | r => unfit ("struct " ++ name) r

end ConnectorCatalog.Json
