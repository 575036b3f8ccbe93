import ConnectorCatalog.Text.Blank

/-!
# TOML literals

How keys and scalar values are written. Each recogniser takes the longest beginning of a text that
its literal can have and returns what is left. The text of a string is what stands between its
quotes with the escapes for quotes, backslashes, line breaks, returns and tabs undone.
-/

namespace ConnectorCatalog.Toml

/-- Control characters other than the tab; they stand in no comment and no string. -/
def isControl (c : Char) : Bool := (c.toNat < 32 && c != '\t') || c.toNat == 127

/-- A character of a comment. -/
def isCommentChar (c : Char) : Bool := !isControl c

/-- A space or tab. -/
def isGap (c : Char) : Bool := c == ' ' || c == '\t'

/-- The text after spaces, tabs and a comment. -/
def skipGap (s : List Char) : List Char :=
  match s.dropWhile isGap with
  | '#' :: r => r.dropWhile isCommentChar
  | r => r

/-- The text after spaces, tabs, comments and line breaks. -/
def skipLines (inComment : Bool) : List Char → List Char
  | [] => []
  | '\n' :: r => skipLines false r
  | '\r' :: '\n' :: r => skipLines false r
  | c :: r =>
    if inComment then if isCommentChar c then skipLines true r else c :: r
    else if isGap c then skipLines false r
    else if c = '#' then skipLines true r
    else c :: r

/-- The text after the end of a line, or the end of the text. -/
def lineEnd? (s : List Char) : Option (List Char) :=
  match skipGap s with
  | [] => some []
  | '\n' :: r => some r
  | '\r' :: '\n' :: r => some r
  | _ => none

/-- A decimal digit. -/
def isDecimal (c : Char) : Bool := '0' ≤ c && c ≤ '9'

/-- A hexadecimal digit. -/
def isHexadecimal (c : Char) : Bool :=
  isDecimal c || ('a' ≤ c && c ≤ 'f') || ('A' ≤ c && c ≤ 'F')

/-- An octal digit. -/
def isOctal (c : Char) : Bool := '0' ≤ c && c ≤ '7'

/-- A binary digit. -/
def isBinary (c : Char) : Bool := c == '0' || c == '1'

/-- A character of a bare key. -/
def isBareKeyChar (c : Char) : Bool := c.isAlphanum || c == '_' || c == '-'

/-- A character of a string, other than quotes and line breaks. -/
def isPlain (quote c : Char) : Bool := !isControl c && c != quote

/-- The text after an escape, whose backslash is already read. -/
def escape? : List Char → Option (List Char)
  | 'u' :: r => if 4 ≤ r.length ∧ (r.take 4).all isHexadecimal then some (r.drop 4) else none
  | 'U' :: r => if 8 ≤ r.length ∧ (r.take 8).all isHexadecimal then some (r.drop 8) else none
  | c :: r => if c ∈ ['b', 't', 'n', 'f', 'r', '"', '\\'] then some r else none
  | [] => none

/-- The text after a string on one line, whose opening quote is already read; `skip` characters
belong to an escape. -/
def basicEnd? : Nat → List Char → Option (List Char)
  | _, [] => none
  | skip + 1, _ :: r => basicEnd? skip r
  | 0, c :: r =>
    if c = '"' then some r
    else if c = '\\' then
      match escape? r with
      | some rest => basicEnd? (r.length - rest.length) r
      | none => none
    else if isPlain '"' c then basicEnd? 0 r
    else none

/-- The text after a literal string on one line. -/
def literalEnd? : List Char → Option (List Char)
  | [] => none
  | c :: r =>
    if c = '\'' then some r else if isPlain '\'' c then literalEnd? r else none

/-- The text after a string over several lines. A run of three or more quotes ends it, `run` of
which have been read; `skip` characters belong to an escape. -/
def longEnd? (quote : Char) (escapes : Bool) : Nat → Nat → List Char → Option (List Char)
  | run, _, [] => if 3 ≤ run then some [] else none
  | run, skip + 1, _ :: r => longEnd? quote escapes run skip r
  | run, 0, c :: r =>
    if c = quote then longEnd? quote escapes (run + 1) 0 r
    else if 3 ≤ run then some (c :: r)
    else if c = '\\' ∧ escapes then
      match r with
      | '\n' :: _ => longEnd? quote escapes 0 1 r
      | '\r' :: '\n' :: _ => longEnd? quote escapes 0 2 r
      | _ =>
        match escape? r with
        | some rest => longEnd? quote escapes 0 (r.length - rest.length) r
        | none => none
    else if c = '\n' then longEnd? quote escapes 0 0 r
    else if c = '\r' then
      match r with
      | '\n' :: _ => longEnd? quote escapes 0 1 r
      | _ => none
    else if isPlain quote c then longEnd? quote escapes 0 0 r
    else none

/-- The text after a key of one segment. -/
def segmentEnd? : List Char → Option (List Char)
  | '"' :: r => basicEnd? 0 r
  | '\'' :: r => literalEnd? r
  | c :: r => if isBareKeyChar c then some (r.dropWhile isBareKeyChar) else none
  | [] => none

/-- The text after further segments of a key, each behind a dot; `fuel` bounds their number. -/
def segmentsEnd? : Nat → List Char → Option (List Char)
  | 0, s => some s
  | fuel + 1, s =>
    match skipGap s with
    | '.' :: r => (segmentEnd? (skipGap r)).bind (segmentsEnd? fuel)
    | _ => some s

/-- The text after a key. -/
def keyEnd? (s : List Char) : Option (List Char) := (segmentEnd? s).bind (segmentsEnd? s.length)

/-- The text after more digits, single underscores among them. -/
def digitsEnd (isDigit : Char → Bool) : List Char → List Char
  | [] => []
  | '_' :: d :: r => if isDigit d then digitsEnd isDigit r else '_' :: d :: r
  | d :: r => if isDigit d then digitsEnd isDigit r else d :: r

/-- The text after at least one digit. -/
def digitsEnd? (isDigit : Char → Bool) : List Char → Option (List Char)
  | [] => none
  | d :: r => if isDigit d then some (digitsEnd isDigit r) else none

/-- The text after a sign, if there is one. -/
def skipSign : List Char → List Char
  | '+' :: r => r
  | '-' :: r => r
  | s => s

/-- The text after a decimal integer; a leading zero stands alone. -/
def decimalEnd? (s : List Char) : Option (List Char) :=
  match skipSign s with
  | '0' :: r => some r
  | r => digitsEnd? isDecimal r

/-- The text after an integer in another base. -/
def radixEnd? : List Char → Option (List Char)
  | '0' :: 'x' :: r => digitsEnd? isHexadecimal r
  | '0' :: 'o' :: r => digitsEnd? isOctal r
  | '0' :: 'b' :: r => digitsEnd? isBinary r
  | _ => none

/-- The text after an exponent. -/
def exponentEnd? : List Char → Option (List Char)
  | 'e' :: r => digitsEnd? isDecimal (skipSign r)
  | 'E' :: r => digitsEnd? isDecimal (skipSign r)
  | _ => none

/-- The text after a fraction. -/
def fractionEnd? : List Char → Option (List Char)
  | '.' :: r => digitsEnd? isDecimal r
  | _ => none

/-- The text after a number with a fraction or an exponent, or a special number. -/
def floatEnd? (s : List Char) : Option (List Char) :=
  match skipSign s with
  | 'i' :: 'n' :: 'f' :: r => some r
  | 'n' :: 'a' :: 'n' :: r => some r
  | _ =>
    (decimalEnd? s).bind fun r =>
      match fractionEnd? r with
      | some t => (exponentEnd? t).orElse fun _ => some t
      | none => exponentEnd? r

/-- The text after two digits that make a number from `least` to `greatest`. -/
def twoDigitsEnd? (least greatest : Nat) : List Char → Option (List Char)
  | a :: b :: r =>
    let n := 10 * (a.toNat - 48) + (b.toNat - 48)
    if isDecimal a ∧ isDecimal b ∧ least ≤ n ∧ n ≤ greatest then some r else none
  | _ => none

/-- The text after a character. -/
def charEnd? (c : Char) : List Char → Option (List Char)
  | d :: r => if d = c then some r else none
  | [] => none

/-- The text after a date. -/
def dateEnd? (s : List Char) : Option (List Char) := do
  let r ← if (s.takeWhile isDecimal).isEmpty then none else some (s.dropWhile isDecimal)
  let r ← charEnd? '-' r
  let r ← twoDigitsEnd? 1 12 r
  let r ← charEnd? '-' r
  twoDigitsEnd? 1 31 r

/-- The text after a time of day. -/
def timeEnd? (s : List Char) : Option (List Char) := do
  let r ← twoDigitsEnd? 0 23 s
  let r ← charEnd? ':' r
  let r ← twoDigitsEnd? 0 59 r
  let r ← charEnd? ':' r
  let r ← twoDigitsEnd? 0 60 r
  match r with
  | '.' :: d :: t => if isDecimal d then some (t.dropWhile isDecimal) else some r
  | _ => some r

/-- The text after an offset from universal time. -/
def offsetEnd? : List Char → Option (List Char)
  | 'z' :: r => some r
  | 'Z' :: r => some r
  | c :: r =>
    if c = '+' ∨ c = '-' then do
      let r ← twoDigitsEnd? 0 23 r
      let r ← charEnd? ':' r
      twoDigitsEnd? 0 59 r
    else none
  | [] => none

/-- The text after a date, which may have a time and the time an offset. -/
def dateTimeEnd? (s : List Char) : Option (List Char) :=
  (dateEnd? s).map fun r =>
    match r with
    | c :: t =>
      if c = ' ' ∨ c = 't' ∨ c = 'T' then
        match timeEnd? t with
        | some u => (offsetEnd? u).getD u
        | none => r
      else r
    | [] => r

/-- The text after a truth value. -/
def booleanEnd? (s : List Char) : Option (List Char) :=
  ("true".toList.isPrefixOf? s).orElse fun _ => "false".toList.isPrefixOf? s

/-- The kinds of scalar values that are not strings. -/
inductive ScalarKind
  | integer
  | boolean
  | other
deriving DecidableEq, Repr

/-- The readings of a scalar: each kind with the text after it. -/
def scalarReadings (s : List Char) : List (ScalarKind × List Char) :=
  [(.integer, decimalEnd? s), (.integer, radixEnd? s), (.boolean, booleanEnd? s),
    (.other, floatEnd? s), (.other, dateTimeEnd? s), (.other, timeEnd? s)].filterMap
    fun (kind, rest) => rest.map fun r => (kind, r)

/-- The longer of two readings, the first if they are equal. -/
def longerReading (a b : ScalarKind × List Char) : ScalarKind × List Char :=
  if b.2.length < a.2.length then b else a

/-- The longest reading of a scalar. -/
def scalarEnd? (s : List Char) : Option (ScalarKind × List Char) :=
  match scalarReadings s with
  | [] => none
  | a :: rest => some (rest.foldl longerReading a)

/-- Undoes the escapes of quotes, backslashes, line breaks, returns and tabs; every other escape
stays as it is written. -/
def unescape : List Char → List Char
  | [] => []
  | '\\' :: 'n' :: r => '\n' :: unescape r
  | '\\' :: 't' :: r => '\t' :: unescape r
  | '\\' :: 'r' :: r => '\r' :: unescape r
  | '\\' :: '"' :: r => '"' :: unescape r
  | '\\' :: '\\' :: r => '\\' :: unescape r
  | '\\' :: c :: r => '\\' :: c :: unescape r
  | c :: r => c :: unescape r

/-- A text over several lines without the line break it may begin with. -/
def withoutFirstBreak : List Char → List Char
  | '\n' :: r => r
  | s => s

/-- The name of a key: its segments without the blanks and quotes around them, with dots between. -/
def keyName (source : List Char) : String :=
  let segments := (cutAll (· == '.') source).map fun segment =>
    trimWhile (· == '\'') (trimWhile (· == '"') (trim segment))
  String.ofList (joinWith ['.'] segments)

end ConnectorCatalog.Toml
