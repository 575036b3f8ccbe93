import ConnectorCatalog.Text.Blank

/-!
# Punycode

A text over all characters is written in ASCII: first its ASCII characters, then, behind a hyphen,
where the others go, in ascending order, as differences in numbers of base 36 whose digits have
thresholds that follow the differences seen so far.
-/

namespace ConnectorCatalog.Punycode

/-- A digit: letters stand for 0 to 25, decimal digits for 26 to 35. -/
def digit (n : Nat) : Char :=
  if n < 26 then Char.ofNat ('a'.toNat + n) else Char.ofNat ('0'.toNat + (n - 26))

/-- The value of a digit. -/
def digitValue? (c : Char) : Option Nat :=
  if 'a' ≤ c ∧ c ≤ 'z' then some (c.toNat - 'a'.toNat)
  else if 'A' ≤ c ∧ c ≤ 'Z' then some (c.toNat - 'A'.toNat)
  else if '0' ≤ c ∧ c ≤ '9' then some (c.toNat - '0'.toNat + 26)
  else none

/-- The threshold of the digit at a position, which counts in steps of 36. -/
def threshold (position bias : Nat) : Nat :=
  if position ≤ bias then 1 else if bias + 26 ≤ position then 26 else position - bias

theorem one_le_threshold (position bias : Nat) : 1 ≤ threshold position bias := by
  unfold threshold
  split
  · exact Nat.le_refl 1
  · split <;> omega

/-- Divides by 35 until at most 455 is left; the second number counts the divisions by 36. -/
def reduce (delta bias : Nat) : Nat × Nat :=
  if 455 < delta then reduce (delta / 35) (bias + 36) else (delta, bias)
termination_by delta

/-- The bias after a difference; `count` characters are there now. -/
def adapt (delta count : Nat) (isFirst : Bool) : Nat :=
  let halved := if isFirst then delta / 700 else delta / 2
  let (rest, bias) := reduce (halved + halved / count) 0
  bias + 36 * rest / (rest + 38)

/-- A number as digits, the lowest first. -/
def encodeNumber (bias position n : Nat) : List Char :=
  let t := threshold position bias
  if n < t then [digit n]
  else digit (t + (n - t) % (36 - t)) :: encodeNumber bias (position + 36) ((n - t) / (36 - t))
termination_by n
decreasing_by
  have h := one_le_threshold position bias
  exact Nat.lt_of_le_of_lt (Nat.div_le_self _ _) (by omega)

/-- The digits written so far, the difference since the last of them, the bias, and how many
characters are there. -/
structure Encoding where
  digits : List Char
  delta : Nat
  bias : Nat
  count : Nat

/-- Passes one character of the text while those of code `code` are put in. -/
def Encoding.pass (code : Nat) (e : Encoding) (c : Char) : Encoding :=
  if c.toNat < code then { e with delta := e.delta + 1 }
  else if c.toNat = code then
    { digits := e.digits ++ encodeNumber e.bias 36 e.delta
      delta := 0
      bias := adapt e.delta (e.count + 1) e.digits.isEmpty
      count := e.count + 1 }
  else e

/-- Puts in the characters of each code in turn; codes up to `last` are done. -/
def Encoding.putAll (text : List Char) (e : Encoding) (last : Nat) : List Nat → Encoding
  | [] => e
  | code :: codes =>
    let e := { e with delta := e.delta + (code - last - 1) * (e.count + 1) }
    let e := text.foldl (Encoding.pass code) e
    Encoding.putAll text { e with delta := e.delta + 1 } code codes

/-- The character is in ASCII. -/
def isAscii (c : Char) : Bool := c.toNat < 128

/-- The codes beyond ASCII that a text has, ascending, each once. -/
def codesOf (text : List Char) : List Nat :=
  (((text.filter (!isAscii ·)).map Char.toNat).mergeSort fun a b => decide (a ≤ b)).eraseDups

/-- Writes a text in ASCII. -/
def encode (text : List Char) : List Char :=
  let basic := text.filter isAscii
  let e := Encoding.putAll text ⟨[], 0, 72, basic.length⟩ 127 (codesOf text)
  basic ++ (if basic.isEmpty then [] else ['-']) ++ e.digits

/-- Reads a number; `weight` is that of the next digit. -/
def decodeNumber? (bias position weight n : Nat) : List Char → Option (Nat × List Char)
  | [] => none
  | c :: r =>
    match digitValue? c with
    | none => none
    | some d =>
      if d < threshold position bias then some (n + d * weight, r)
      else
        decodeNumber? bias (position + 36) (weight * (36 - threshold position bias))
          (n + d * weight) r

theorem length_of_decodeNumber? {bias position weight n m : Nat} {s r : List Char}
    (h : decodeNumber? bias position weight n s = some (m, r)) : r.length < s.length := by
  induction s generalizing position weight n with
  | nil => simp [decodeNumber?] at h
  | cons c s ih =>
    rw [decodeNumber?] at h
    split at h
    · simp at h
    · split at h
      · simp only [Option.some.injEq, Prod.mk.injEq] at h
        simp [← h.2]
      · exact Nat.lt_succ_of_lt (ih h)

/-- Puts in the characters that differences name. `code` is the last one put in, `index` its place.
-/
def decodeFrom? (text : List Char) (bias code index : Nat) (s : List Char) : Option (List Char) :=
  if s.isEmpty then some text
  else
    match h : decodeNumber? bias 36 1 index s with
    | none => none
    | some (n, r) =>
      let count := text.length + 1
      let code := code + n / count
      let place := n % count
      if 0x10FFFF < code ∨ (0xD800 ≤ code ∧ code ≤ 0xDFFF) then none
      else
        decodeFrom? (text.take place ++ Char.ofNat code :: text.drop place)
          (adapt (n - index) count (index == 0)) code (place + 1) r
termination_by s.length
decreasing_by exact length_of_decodeNumber? h

/-- Reads a text written in ASCII. -/
def decode? (s : List Char) : Option (List Char) :=
  let (basic, digits) := (cutAtLast (· == '-') s).getD ([], s)
  if basic.all isAscii then decodeFrom? basic 72 128 0 digits else none

end ConnectorCatalog.Punycode
