import ConnectorCatalog.Text.Hexadecimal

/-!
# Percent encoding

A character that may not stand for itself is written as its UTF-8 bytes, each as a percent sign and
two hexadecimal digits. Which characters may stand for themselves depends on the part of a URL;
characters outside ASCII and control characters never do.
-/

namespace ConnectorCatalog.Percent

/-- A byte as a percent sign and two digits. -/
def encodeByte (b : UInt8) : List Char := ['%', hexDigit (b.toNat / 16), hexDigit (b.toNat % 16)]

/-- The UTF-8 bytes of a character, each encoded. -/
def encodeChar (c : Char) : List Char := (String.utf8EncodeChar c).flatMap encodeByte

/-- A printable ASCII character. -/
def isPrintable (c : Char) : Bool := ' ' ≤ c && c ≤ '~'

/-- Encodes the characters of a text that are not printable, and those among `extra`. -/
def encode (extra : List Char) (s : List Char) : List Char :=
  s.flatMap fun c => if isPrintable c && !extra.contains c then [c] else encodeChar c

/-- The bytes that a text stands for. A percent sign without two digits after it stands for itself.
-/
def decode : List Char → List UInt8
  | '%' :: a :: b :: r =>
    match hexValue? a, hexValue? b with
    | some x, some y => UInt8.ofNat (16 * x + y) :: decode r
    | _, _ => String.utf8EncodeChar '%' ++ decode (a :: b :: r)
  | c :: r => String.utf8EncodeChar c ++ decode r
  | [] => []

/-- The text that a text stands for, if its bytes are UTF-8. -/
def decodeText? (s : List Char) : Option String := String.fromUTF8? ⟨(decode s).toArray⟩

/-! ### What is encoded in the parts of a URL -/

/-- Encoded in a fragment. -/
def inFragment : List Char := [' ', '"', '<', '>', '\x60']

/-- Encoded in a query. -/
def inQuery : List Char := [' ', '"', '#', '<', '>']

/-- Encoded in a path. -/
def inPath : List Char := inFragment ++ ['#', '?', '\x7b', '\x7d']

/-- Encoded in a name and password. -/
def inUserInfo : List Char := inPath ++ ['/', ':', ';', '=', '@', '[', '\\', ']', '^', '|']

/-- Encoded in a single segment of a path. -/
def inSegment : List Char := inPath ++ ['/', '%']

end ConnectorCatalog.Percent
