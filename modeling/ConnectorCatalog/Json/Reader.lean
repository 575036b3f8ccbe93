import ConnectorCatalog.Json.Mismatch
import ConnectorCatalog.Number.Range
import ConnectorCatalog.Text.Hexadecimal
import ConnectorCatalog.Text.Utf8

/-!
# Reading JSON

Reads a text as one JSON value. A text that is not JSON is refused with the first fault and the
place, line and byte column, at which it shows. Numbers without fraction and exponent that fit 64
bits are integers; every other number is as many leading digits as fit 64 bits times a power of ten,
each step rounded to binary.
-/

namespace ConnectorCatalog.Json

/-- Why a text cannot be read. -/
inductive Fault
  | endInList
  | endInObject
  | endInString
  | endInValue
  | expectedColon
  | expectedListCommaOrEnd
  | expectedObjectCommaOrEnd
  | expectedIdentifier
  | expectedValue
  | invalidEscape
  | invalidNumber
  | numberOutOfRange
  | controlCharacter
  | keyNotString
  | loneSurrogate
  | trailingComma
  | trailingCharacters
  | endOfHexEscape
  | unfit (mismatch : Mismatch)
deriving DecidableEq, Repr

/-- The words for a fault. -/
def Fault.message : Fault → String
  | .endInList => "EOF while parsing a list"
  | .endInObject => "EOF while parsing an object"
  | .endInString => "EOF while parsing a string"
  | .endInValue => "EOF while parsing a value"
  | .expectedColon => "expected `:`"
  | .expectedListCommaOrEnd => "expected `,` or `]`"
  | .expectedObjectCommaOrEnd => "expected `,` or `\x7d`"
  | .expectedIdentifier => "expected ident"
  | .expectedValue => "expected value"
  | .invalidEscape => "invalid escape"
  | .invalidNumber => "invalid number"
  | .numberOutOfRange => "number out of range"
  | .controlCharacter => "control character (\\u0000-\\u001F) found while parsing a string"
  | .keyNotString => "key must be a string"
  | .loneSurrogate => "lone leading surrogate in hex escape"
  | .trailingComma => "trailing comma"
  | .trailingCharacters => "trailing characters"
  | .endOfHexEscape => "unexpected end of hex escape"
  | .unfit mismatch => mismatch.message

/-- A fault, and how many bytes of the text come after the place where it shows. -/
structure Stop where
  fault : Fault
  bytesLeft : Nat
deriving DecidableEq, Repr

/-- A step of reading, which mostly gives a value and the text that is left. -/
abbrev Reading := Except Stop

/-- A fault at the last character read; `rest` is what is left. -/
def stopBefore {α : Type} (fault : Fault) (rest : List Char) : Reading α :=
  .error ⟨fault, byteLength rest⟩

/-- A fault at the first byte of what is left. -/
def stopAt {α : Type} (fault : Fault) (rest : List Char) : Reading α :=
  .error ⟨fault, byteLength rest - 1⟩

/-- A space, tab or line break. -/
def isSpace (c : Char) : Bool := c == ' ' || c == '\n' || c == '\t' || c == '\r'

/-- The text after spaces. -/
def skipSpace (s : List Char) : List Char := s.dropWhile isSpace

/-- A decimal digit. -/
def isDigit (c : Char) : Bool := '0' ≤ c && c ≤ '9'

/-- The value of a decimal digit. -/
def digitValue (c : Char) : Nat := c.toNat - '0'.toNat

/-- Reads what is left of a literal word. -/
def readWord (value : Json) : List Char → List Char → Reading (Json × List Char)
  | [], s => .ok (value, s)
  | _ :: _, [] => stopBefore .endInValue []
  | w :: ws, c :: s => if c = w then readWord value ws s else stopBefore .expectedIdentifier s

/-- Reads four hexadecimal digits. -/
def readHex (s : List Char) : Reading (Nat × List Char) :=
  let bad : Reading (Nat × List Char) :=
    if byteLength s < 4 then .error ⟨.endInString, 0⟩ else .error ⟨.invalidEscape, byteLength s - 4⟩
  match s with
  | a :: b :: c :: d :: r =>
    match hexValue? a, hexValue? b, hexValue? c, hexValue? d with
    | some a, some b, some c, some d => .ok (((a * 16 + b) * 16 + c) * 16 + d, r)
    | _, _, _, _ => bad
  | _ => bad

/-- The character with a letter escape. -/
def letterEscape? (c : Char) : Option Char :=
  if c = '"' ∨ c = '\\' ∨ c = '/' then some c
  else if c = 'b' then some (Char.ofNat 8)
  else if c = 'f' then some (Char.ofNat 12)
  else if c = 'n' then some '\n'
  else if c = 'r' then some '\r'
  else if c = 't' then some '\t'
  else none

/-- Reads the digits of a Unicode escape, and the second escape of a pair. -/
def readUnicodeEscape (s : List Char) : Reading (Char × List Char) := do
  let (n, r) ← readHex s
  if 0xDC00 ≤ n ∧ n ≤ 0xDFFF then stopBefore .loneSurrogate r
  else if n < 0xD800 ∨ 0xDBFF < n then .ok (Char.ofNat n, r)
  else match r with
    | [] => stopBefore .endInString []
    | '\\' :: [] => stopBefore .endInString []
    | '\\' :: 'u' :: r =>
      let (m, r) ← readHex r
      if m < 0xDC00 ∨ 0xDFFF < m then stopBefore .loneSurrogate r
      else .ok (Char.ofNat (0x10000 + (n - 0xD800) * 0x400 + (m - 0xDC00)), r)
    | '\\' :: _ => .error ⟨.endOfHexEscape, byteLength (r.drop 1) - 1⟩
    | _ => .error ⟨.endOfHexEscape, byteLength r - 1⟩

/-- Reads an escape after its backslash. -/
def readEscape : List Char → Reading (Char × List Char)
  | [] => stopBefore .endInString []
  | 'u' :: r => readUnicodeEscape r
  | c :: r =>
    match letterEscape? c with
    | some e => .ok (e, r)
    | none => .error ⟨.invalidEscape, byteLength (c :: r) - 1⟩

/-- Reads the rest of a string; `fuel` bounds its length. -/
def readStringChars : Nat → List Char → List Char → Reading (String × List Char)
  | 0, _, s => stopBefore .endInString s
  | _ + 1, _, [] => stopBefore .endInString []
  | fuel + 1, acc, c :: r =>
    if c = '"' then .ok (String.ofList acc.reverse, r)
    else if c = '\\' then do
      let (e, r) ← readEscape r
      readStringChars fuel (e :: acc) r
    else if c.toNat < 32 then stopBefore .controlCharacter r
    else readStringChars fuel (c :: acc) r

/-- Reads a string after its opening quote. -/
def readString (s : List Char) : Reading (String × List Char) := readStringChars (s.length + 1) [] s

/-- The number made of as many leading digits as keep it below two to the power 64, after `n`, and
how many digits these are. -/
def leadingDigits (n : Nat) : List Nat → Nat × Nat
  | [] => (n, 0)
  | d :: ds =>
    if IntegerRange.unsigned64.has ((10 * n + d : Nat) : Int) then
      let (m, k) := leadingDigits (10 * n + d) ds
      (m, k + 1)
    else (n, 0)

/-- Divides by ten to the power `n`, at most 308 places at a time. -/
def dividedByTenPow (x : Binary64) (n : Nat) : Binary64 :=
  if h : n ≤ 308 then x.div (.ofNat (tenPow n))
  else if x.isZero then x
  else dividedByTenPow (x.div (.ofNat (tenPow 308))) (n - 308)
termination_by n

/-- A number times a power of ten, if it is not too large. -/
def scaled? (n : Nat) (exponent : Int) : Option Binary64 :=
  let x := Binary64.ofNat n
  if exponent < 0 then some (dividedByTenPow x exponent.natAbs)
  else if exponent ≤ 308 then
    let y := x.mul (.ofNat (tenPow exponent.toNat))
    if y.isFinite then some y else none
  else if x.isZero then some x
  else none

/-- The digits of a number as they are written, with the exponent if there is one. -/
structure Numeral where
  negative : Bool
  whole : List Nat
  fraction : List Nat
  exponent : Option Int

/-- The value of a numeral, if it is not too large. -/
def Numeral.value? (x : Numeral) : Option Number :=
  let (n, k) := leadingDigits 0 x.whole
  let whole := x.fraction.isEmpty && x.exponent.isNone && k == x.whole.length
  if whole && !x.negative then some (.integer n)
  else if whole && 0 < n && IntegerRange.signed64.has (-n) then some (.integer (-n))
  else
    let (m, j) := leadingDigits n x.fraction
    let exponent : Int := ((x.whole.length - k : Nat) : Int) - j + x.exponent.getD 0
    (scaled? m exponent).map fun y => .float (if x.negative then y.neg else y)

/-- Reads the exponent of a numeral after its letter. `atEnd` is the fault of a text that ends too
early. -/
def readExponent (atEnd : Fault) (s : List Char) : Reading (Int × List Char) :=
  let (negative, r) := match s with
    | '+' :: r => (false, r)
    | '-' :: r => (true, r)
    | r => (false, r)
  match r with
  | [] => stopBefore atEnd []
  | c :: t =>
    if isDigit c then
      let n := (r.takeWhile isDigit).foldl (fun n d => 10 * n + digitValue d) 0
      .ok (if negative then -(n : Int) else n, r.dropWhile isDigit)
    else .error ⟨.invalidNumber, byteLength (c :: t) - 1⟩

/-- Reads the fraction of a numeral after its point. -/
def readFraction (atEnd : Fault) (s : List Char) : Reading (List Nat × List Char) :=
  match s with
  | [] => stopAt atEnd []
  | c :: _ =>
    if isDigit c then .ok ((s.takeWhile isDigit).map digitValue, s.dropWhile isDigit)
    else stopAt .invalidNumber s

/-- Reads the whole digits of a numeral. A zero stands alone. -/
def readWhole (atEnd : Fault) : List Char → Reading (List Nat × List Char)
  | [] => stopBefore atEnd []
  | c :: r =>
    if c = '0' then
      match r with
      | d :: _ => if isDigit d then stopAt .invalidNumber r else .ok ([0], r)
      | [] => .ok ([0], r)
    else if isDigit c then
      .ok (((c :: r).takeWhile isDigit).map digitValue, r.dropWhile isDigit)
    else .error ⟨.invalidNumber, byteLength (c :: r) - 1⟩

/-- Reads the exponent of a numeral if there is one. -/
def readExponent? (atEnd : Fault) (s : List Char) : Reading (Option Int × List Char) :=
  match s with
  | c :: r =>
    if c = 'e' ∨ c = 'E' then do
      let (e, r) ← readExponent atEnd r
      .ok (some e, r)
    else .ok (none, s)
  | [] => .ok (none, s)

/-- Reads a numeral after its sign. -/
def readNumeral (atEnd : Fault) (negative : Bool) (s : List Char) :
    Reading (Numeral × List Char) := do
  let (whole, r) ← readWhole atEnd s
  let (fraction, r) ← match r with
    | '.' :: r => readFraction atEnd r
    | r => .ok ([], r)
  let (exponent, r) ← readExponent? atEnd r
  .ok (⟨negative, whole, fraction, exponent⟩, r)

/-- Reads a number after its sign. -/
def readNumber (negative : Bool) (s : List Char) : Reading (Number × List Char) := do
  let (numeral, r) ← readNumeral .endInValue negative s
  match numeral.value? with
  | some n => .ok (n, r)
  | none => stopBefore .numberOutOfRange r

/-- Reads a literal, a number or a string; `none` if an array or object begins here. -/
def readScalar (s : List Char) : Reading (Option (Json × List Char)) :=
  match s with
  | [] => stopAt .endInValue []
  | c :: r =>
    if c = 'n' then some <$> readWord .null "ull".toList r
    else if c = 't' then some <$> readWord (.bool true) "rue".toList r
    else if c = 'f' then some <$> readWord (.bool false) "alse".toList r
    else if c = '-' then (fun (n, r) => some (.number n, r)) <$> readNumber true r
    else if isDigit c then (fun (n, r) => some (.number n, r)) <$> readNumber false s
    else if c = '"' then (fun (t, r) => some (.string t, r)) <$> readString r
    else if c = '[' ∨ c = '\x7b' then .ok none
    else stopAt .expectedValue s

/-- What stands before the next element of a list: nothing more, or the text of the element. -/
def nextElement (first : Bool) (s : List Char) : Reading (Bool × List Char) :=
  match skipSpace s with
  | [] => stopAt .endInList []
  | c :: r =>
    if c = ']' then .ok (false, r)
    else if c = ',' ∧ !first then
      match skipSpace r with
      | [] => stopAt .endInValue []
      | d :: t => if d = ']' then stopAt .trailingComma (d :: t) else .ok (true, d :: t)
    else if first then .ok (true, c :: r)
    else stopAt .expectedListCommaOrEnd (c :: r)

/-- What stands before the next member of an object: nothing more, or the text of the key after its
opening quote. -/
def nextMember (first : Bool) (s : List Char) : Reading (Bool × List Char) :=
  match skipSpace s with
  | [] => stopAt .endInObject []
  | c :: r =>
    if c = '\x7d' then .ok (false, r)
    else if c = ',' ∧ !first then
      match skipSpace r with
      | [] => stopAt .endInValue []
      | d :: t =>
        if d = '"' then .ok (true, t)
        else if d = '\x7d' then stopAt .trailingComma (d :: t)
        else stopAt .keyNotString (d :: t)
    else if first then
      if c = '"' then .ok (true, r) else stopAt .keyNotString (c :: r)
    else stopAt .expectedObjectCommaOrEnd (c :: r)

/-- Reads the colon after a key. -/
def readColon (s : List Char) : Reading (List Char) :=
  match skipSpace s with
  | [] => stopAt .endInObject []
  | c :: r => if c = ':' then .ok r else stopAt .expectedColon (c :: r)

mutual

/-- Reads a value; `fuel` bounds the number of values, elements and members. -/
def readValue : Nat → List Char → Reading (Json × List Char)
  | 0, s => stopAt .endInValue s
  | fuel + 1, s => do
    let s := skipSpace s
    match ← readScalar s with
    | some found => .ok found
    | none =>
      match s with
      | '[' :: r => (fun (xs, r) => (.array xs, r)) <$> readElements fuel true r
      | _ :: r => (fun (ms, r) => (.object ms, r)) <$> readMembers fuel true r
      | [] => stopAt .endInValue []

/-- Reads elements up to the end of a list. -/
def readElements : Nat → Bool → List Char → Reading (List Json × List Char)
  | 0, _, s => stopAt .endInList s
  | fuel + 1, first, s => do
    match ← nextElement first s with
    | (false, r) => .ok ([], r)
    | (true, r) =>
      let (x, r) ← readValue fuel r
      let (xs, r) ← readElements fuel false r
      .ok (x :: xs, r)

/-- Reads members up to the end of an object. -/
def readMembers : Nat → Bool → List Char → Reading (List (String × Json) × List Char)
  | 0, _, s => stopAt .endInObject s
  | fuel + 1, first, s => do
    match ← nextMember first s with
    | (false, r) => .ok ([], r)
    | (true, r) =>
      let (key, r) ← readString r
      let r ← readColon r
      let (x, r) ← readValue fuel r
      let (ms, r) ← readMembers fuel false r
      .ok ((key, x) :: ms, r)

end

/-- Nothing but spaces may follow a value. -/
def readEnd (s : List Char) : Reading Unit :=
  match skipSpace s with
  | [] => .ok ()
  | c :: r => stopAt .trailingCharacters (c :: r)

/-- A line, from one, and a byte column in it. -/
structure Place where
  line : Nat
  column : Nat
deriving DecidableEq, Repr

/-- The place reached from `place` by reading `bytes` bytes. -/
def Place.advance (place : Place) : Nat → List Char → Place
  | _, [] => place
  | bytes, c :: r =>
    if bytes = 0 then place
    else if bytes < c.utf8Size then ⟨place.line, place.column + bytes⟩
    else if c = '\n' then Place.advance ⟨place.line + 1, 0⟩ (bytes - 1) r
    else Place.advance ⟨place.line, place.column + c.utf8Size⟩ (bytes - c.utf8Size) r

/-- A fault and its place in the text. -/
structure ReadError where
  fault : Fault
  place : Place
deriving DecidableEq, Repr

/-- The words for a fault and its place. -/
def ReadError.message (e : ReadError) : String :=
  e.fault.message ++ " at line " ++ toString e.place.line ++ " column " ++ toString e.place.column

/-- Reads a whole text by `step`: nothing but spaces may be left. -/
def readAll {α : Type} (step : List Char → Reading (α × List Char)) (text : List Char) :
    Except ReadError α :=
  match (do let (x, r) ← step text; readEnd r; .ok x : Reading α) with
  | .ok x => .ok x
  | .error stop =>
    .error ⟨stop.fault, Place.advance ⟨1, 0⟩ (byteLength text - stop.bytesLeft) text⟩

/-- Reads a text as one value, its members in the order of the text. -/
def read (text : List Char) : Except ReadError Json :=
  readAll (readValue (2 * text.length + 2)) text

/-- Reads a text as one canonical value. -/
def parse (text : String) : Except ReadError Json := canonical <$> read text.toList

end ConnectorCatalog.Json
