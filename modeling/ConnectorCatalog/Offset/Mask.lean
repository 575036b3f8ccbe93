import ConnectorCatalog.Offset.Slice

/-!
# Masking byte by byte

A scanner that blanks comments, documentation lines and literal contents in the bytes of a source.
It never looks at characters: it goes from index to index, two at a time past an escape in a string,
and shows each byte as it is or as a space.
-/

namespace ConnectorCatalog.Offset

/-- What the scanner is inside of. -/
inductive Region
  | code
  | lineComment
  | documentation
  | string
  | template
deriving DecidableEq, Repr

/-- The byte of a space. -/
def space : UInt8 := 0x20

namespace Region

/-- Where a line break leads: it ends comments and documentation. -/
def afterNewline : Region → Region
  | .lineComment | .documentation | .code => .code
  | .string => .string
  | .template => .template

/-- Where a byte other than a line break leads, and the byte that is shown for it. `next?` is the
byte after it. -/
def read (region : Region) (atLineStart : Bool) (b : UInt8) (next? : Option UInt8) :
    Region × UInt8 :=
  match region with
  | .code =>
    if byteView b = '/' ∧ next?.map byteView = some '/' then (.lineComment, space)
    else if byteView b = '#' ∧ atLineStart then (.documentation, space)
    else if byteView b = '"' then (.string, b)
    else if byteView b = '`' then (.template, b)
    else (.code, b)
  | .lineComment => (.lineComment, space)
  | .documentation => (.documentation, space)
  | .string => if byteView b = '"' then (.code, b) else (.string, space)
  | .template => if byteView b = '`' then (.code, b) else (.template, space)

end Region

/-- The byte `b` at index `i` is a backslash in a string that takes the next byte with it. A line
break is not taken. -/
def escapes (bytes : List UInt8) (i : Nat) (region : Region) (b : UInt8) : Except Fault Bool :=
  if region = .string ∧ byteView b = '\\' ∧ i + 1 < bytes.length then do
    let next ← elementAt bytes (i + 1)
    return byteView next != '\n'
  else return false

/-- A byte that leaves the scanner at the start of a line. -/
def isIndent (b : UInt8) : Bool := byteView b == ' ' || byteView b == '\t' || byteView b == '\r'

/-- The masked bytes from index `i` on. -/
def maskFrom (bytes : List UInt8) (i : Nat) (region : Region) (atLineStart : Bool) :
    Except Fault (List UInt8) :=
  if i < bytes.length then do
    let b ← elementAt bytes i
    if byteView b = '\n' then
      let rest ← maskFrom bytes (i + 1) region.afterNewline true
      return b :: rest
    else if ← escapes bytes i region b then
      let rest ← maskFrom bytes (i + 2) region false
      return space :: space :: rest
    else
      let (region', shown) := region.read atLineStart b bytes[i + 1]?
      let rest ← maskFrom bytes (i + 1) region' (atLineStart && isIndent b)
      return shown :: rest
  else return []
termination_by bytes.length - i

/-- The masked bytes of a source. -/
def maskBytes (bytes : List UInt8) : Except Fault (List UInt8) := maskFrom bytes 0 .code true

/-- The masked text of a source. -/
def mask (source : List Char) : Except Fault (List Char) := do
  let bytes ← maskBytes (bytesOf source)
  textOfBytes bytes

end ConnectorCatalog.Offset
