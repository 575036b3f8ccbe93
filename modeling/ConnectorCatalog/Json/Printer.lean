import ConnectorCatalog.Json.Basic

/-!
# Writing JSON

Two layouts: compact, and indented by two spaces with one element or member on a line. Strings
escape quotes, backslashes and control characters; floating-point numbers are written with the
fewest digits that read back, positionally from `1e-5` up to `1e16` and with an exponent outside.
-/

namespace ConnectorCatalog.Json

/-- The decimal digits of a number. -/
def decimalDigits (n : Nat) : List Char := Nat.toDigits 10 n

/-- A number in four hexadecimal digits. -/
def fourHexDigits (n : Nat) : List Char :=
  let digits := Nat.toDigits 16 n
  List.replicate (4 - digits.length) '0' ++ digits

/-- The escaped form of one character. -/
def escapedChar (c : Char) : List Char :=
  if c = '"' then ['\\', '"']
  else if c = '\\' then ['\\', '\\']
  else if c = '\n' then ['\\', 'n']
  else if c = '\r' then ['\\', 'r']
  else if c = '\t' then ['\\', 't']
  else if c.toNat = 8 then ['\\', 'b']
  else if c.toNat = 12 then ['\\', 'f']
  else if c.toNat < 32 then ['\\', 'u'] ++ fourHexDigits c.toNat
  else [c]

/-- A string in quotes. -/
def writeString (s : String) : List Char := ['"'] ++ s.toList.flatMap escapedChar ++ ['"']

/-- An integer. -/
def writeInt (n : Int) : List Char :=
  if n < 0 then '-' :: decimalDigits n.natAbs else decimalDigits n.natAbs

/-- The magnitude of a floating-point number. With `point` digits before the decimal point, the
layout is positional for `-5 < point ≤ 16`. -/
def writeDecimal (d : Binary64.Decimal) : List Char :=
  let digits := decimalDigits d.digits
  let point : Int := d.exponent + digits.length
  if d.digits = 0 then ['0', '.', '0']
  else if 0 ≤ d.exponent ∧ point ≤ 16 then
    digits ++ List.replicate d.exponent.toNat '0' ++ ['.', '0']
  else if 0 < point ∧ point ≤ 16 then
    digits.take point.toNat ++ ['.'] ++ digits.drop point.toNat
  else if -5 < point ∧ point ≤ 0 then
    ['0', '.'] ++ List.replicate (-point).toNat '0' ++ digits
  else
    let fraction := if digits.length ≤ 1 then [] else '.' :: digits.drop 1
    digits.take 1 ++ fraction ++ ['e'] ++ writeInt (point - 1)

/-- A floating-point number. -/
def writeFloat (x : Binary64) : List Char :=
  (if x.isNegative then ['-'] else []) ++ writeDecimal x.shortest

/-- A number. -/
def Number.write : Number → List Char
  | .integer n => writeInt n
  | .float x => writeFloat x

mutual

/-- The compact text of a value. -/
def compact : Json → List Char
  | null => "null".toList
  | bool b => if b then "true".toList else "false".toList
  | number n => n.write
  | string s => writeString s
  | array xs => ['['] ++ compactElements xs ++ [']']
  | object ms => ['\x7b'] ++ compactMembers ms ++ ['\x7d']

/-- Elements with commas between them. -/
def compactElements : List Json → List Char
  | [] => []
  | [x] => x.compact
  | x :: xs => x.compact ++ [','] ++ compactElements xs

/-- Members with commas between them. -/
def compactMembers : List (String × Json) → List Char
  | [] => []
  | [(k, x)] => writeString k ++ [':'] ++ x.compact
  | (k, x) :: ms => writeString k ++ [':'] ++ x.compact ++ [','] ++ compactMembers ms

end

/-- A line break and the indentation of a level. -/
def newLine (level : Nat) : List Char := '\n' :: List.replicate (2 * level) ' '

mutual

/-- The indented text of a value that stands at a level. -/
def indented (level : Nat) : Json → List Char
  | array [] => ['[', ']']
  | array (x :: xs) =>
    ['['] ++ newLine (level + 1) ++ x.indented (level + 1) ++ indentedElements (level + 1) xs
      ++ newLine level ++ [']']
  | object [] => ['\x7b', '\x7d']
  | object ((k, x) :: ms) =>
    ['\x7b'] ++ newLine (level + 1) ++ writeString k ++ [':', ' '] ++ x.indented (level + 1)
      ++ indentedMembers (level + 1) ms ++ newLine level ++ ['\x7d']
  | null => compact null
  | bool b => compact (bool b)
  | number n => compact (number n)
  | string s => compact (string s)

/-- Further elements, each after a comma and on a line of its own. -/
def indentedElements (level : Nat) : List Json → List Char
  | [] => []
  | x :: xs => [','] ++ newLine level ++ x.indented level ++ indentedElements level xs

/-- Further members, each after a comma and on a line of its own. -/
def indentedMembers (level : Nat) : List (String × Json) → List Char
  | [] => []
  | (k, x) :: ms =>
    [','] ++ newLine level ++ writeString k ++ [':', ' '] ++ x.indented level
      ++ indentedMembers level ms

end

end ConnectorCatalog.Json
