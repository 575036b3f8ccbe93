import ConnectorCatalog.Number.Range
import ConnectorCatalog.Toml.Basic
import ConnectorCatalog.Toml.Literal

/-!
# Reading TOML

Reads a text as a document, statement by statement. A text that is no document is refused at the
first statement that cannot be read to the end of its line; the place is the line and byte column
where that statement begins.
-/

namespace ConnectorCatalog.Toml

/-- The beginning of `s` that comes before `rest`, when `rest` is an end of `s`. -/
def before (s rest : List Char) : List Char := s.take (s.length - rest.length)

/-- The value of a decimal integer as it is written. -/
def integerValue (source : List Char) : Value :=
  let digits := source.filter (· != '_')
  let magnitude := (skipSign digits).foldl (fun n d => 10 * n + (d.toNat - 48)) (0 : Nat)
  let value : Int := if digits.head? = some '-' then -(magnitude : Int) else magnitude
  if (skipSign digits).all isDecimal ∧ IntegerRange.signed64.has value then .integer value
  else .other (String.ofList source)

/-- The value of a scalar as it is written. -/
def scalarValue (kind : ScalarKind) (source : List Char) : Value :=
  match kind with
  | .integer => integerValue source
  | .boolean => .boolean (source.head? == some 't')
  | .other => .other (String.ofList source)

/-- Reads a string or another scalar. -/
def readScalar? (s : List Char) : Option (Value × List Char) :=
  match s with
  | '"' :: '"' :: '"' :: r =>
    (longEnd? '"' true 0 0 r).map fun rest =>
      let inner := (before r rest).dropLast.dropLast.dropLast
      (.string (String.ofList (unescape (withoutFirstBreak inner))), rest)
  | '\'' :: '\'' :: '\'' :: r =>
    (longEnd? '\'' false 0 0 r).map fun rest =>
      let inner := (before r rest).dropLast.dropLast.dropLast
      (.string (String.ofList (withoutFirstBreak inner)), rest)
  | '"' :: r =>
    (basicEnd? 0 r).map fun rest =>
      (.string (String.ofList (unescape (before r rest).dropLast)), rest)
  | '\'' :: r =>
    (literalEnd? r).map fun rest => (.string (String.ofList (before r rest).dropLast), rest)
  | _ => (scalarEnd? s).map fun (kind, rest) => (scalarValue kind (before s rest), rest)

/-- The text after a key and its equals sign, up to the value. -/
def bindingEnd? (s : List Char) : Option (List Char) := do
  let r ← keyEnd? s
  let r ← charEnd? '=' (skipGap r)
  some (skipGap r)

mutual

/-- The text after a value; `fuel` bounds the number of values and separators. -/
def valueEnd? : Nat → List Char → Option (List Char)
  | 0, _ => none
  | fuel + 1, s =>
    match s with
    | '[' :: r => elementsEnd? fuel (skipLines false r)
    | '\x7b' :: r =>
      match skipGap r with
      | '\x7d' :: rest => some rest
      | t => membersEnd? fuel t
    | _ => (readScalar? s).map Prod.snd

/-- The text after the elements of an array and its closing bracket. -/
def elementsEnd? : Nat → List Char → Option (List Char)
  | 0, _ => none
  | fuel + 1, s =>
    match s with
    | ']' :: rest => some rest
    | _ =>
      match valueEnd? fuel s with
      | none => none
      | some r =>
        match skipLines false r with
        | ']' :: rest => some rest
        | ',' :: t => elementsEnd? fuel (skipLines false t)
        | _ => none

/-- The text after the members of an inline table and its closing brace. -/
def membersEnd? : Nat → List Char → Option (List Char)
  | 0, _ => none
  | fuel + 1, s =>
    match bindingEnd? s with
    | none => none
    | some r =>
      match valueEnd? fuel r with
      | none => none
      | some r =>
        match skipGap r with
        | '\x7d' :: rest => some rest
        | ',' :: t => membersEnd? fuel (skipGap t)
        | _ => none

end

/-- Reads a value. Arrays and inline tables are kept as they are written. -/
def readValue? (s : List Char) : Option (Value × List Char) :=
  if s.head? = some '[' ∨ s.head? = some '\x7b' then
    (valueEnd? (2 * s.length + 2) s).map fun rest => (.other (String.ofList (before s rest)), rest)
  else readScalar? s

/-- Reads a key, without the blanks around it, up to a closing text. -/
def readHeading? (closing : List Char) (s : List Char) : Option (String × List Char) := do
  let s := skipGap s
  let r ← keyEnd? s
  let rest ← closing.isPrefixOf? (skipGap r)
  some (keyName (before s r), rest)

/-- Reads a statement up to the end of its line. -/
def readStatement? (s : List Char) : Option (Statement × List Char) :=
  match s with
  | '[' :: '[' :: r => do
    let (name, r) ← readHeading? [']', ']'] r
    let rest ← lineEnd? r
    some (.tableArray name, rest)
  | '[' :: r => do
    let (name, r) ← readHeading? [']'] r
    let rest ← lineEnd? r
    some (.table name, rest)
  | _ => do
    let r ← keyEnd? s
    let key := keyName (before s r)
    let r ← charEnd? '=' (skipGap r)
    let (value, r) ← readValue? (skipGap r)
    let rest ← lineEnd? r
    some (.pair key value, rest)

/-- Reads statements up to the end of the text, or to the first that cannot be read; `fuel` bounds
their number. -/
def readStatements : Nat → List Char → Except (List Char) (List Statement)
  | 0, s => .error s
  | fuel + 1, s =>
    match skipLines false s with
    | [] => .ok []
    | c :: r =>
      match readStatement? (c :: r) with
      | none => .error (c :: r)
      | some (statement, rest) => (statement :: ·) <$> readStatements fuel rest

/-- Where a text is not TOML: a line and a byte column, both from one. -/
structure SyntaxError where
  line : Nat
  column : Nat
deriving DecidableEq, Repr

/-- The words for a syntax error. -/
def SyntaxError.message (e : SyntaxError) : String :=
  "Invalid syntax at line " ++ toString e.line ++ ", column " ++ toString e.column

/-- The place after some text. -/
def SyntaxError.after (text : List Char) : SyntaxError :=
  text.foldl
    (fun e c => if c = '\n' then ⟨e.line + 1, 1⟩ else ⟨e.line, e.column + c.utf8Size⟩) ⟨1, 1⟩

/-- A text without the byte order mark it may begin with. -/
def withoutMark : List Char → List Char
  | '\ufeff' :: r => r
  | s => s

/-- Reads a text as a document. -/
def Document.parse (content : String) : Except SyntaxError Document :=
  let text := content.toList
  match readStatements (text.length + 1) (withoutMark text) with
  | .ok statements => .ok ⟨statements⟩
  | .error rest => .error (SyntaxError.after (before text rest))

end ConnectorCatalog.Toml
