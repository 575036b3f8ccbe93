import ConnectorCatalog.Number.Power

/-!
# Binary floating point

Numbers of the 64-bit binary format, kept as their bits. A finite number is a natural number times a
power of two, so rounding, multiplying by a power of ten and looking for the shortest decimal are
exact computations on natural numbers.
-/

namespace ConnectorCatalog

/-- A 64-bit binary floating-point number. -/
structure Binary64 where
  bits : UInt64
deriving DecidableEq, Repr

namespace Binary64

/-- The number is negative or the negative zero. -/
def isNegative (x : Binary64) : Bool := twoPow 63 ≤ x.bits.toNat

/-- The bits of the exponent. -/
def exponentBits (x : Binary64) : Nat := x.bits.toNat / twoPow 52 % twoPow 11

/-- The bits of the fraction. -/
def fractionBits (x : Binary64) : Nat := x.bits.toNat % twoPow 52

/-- The number is neither infinite nor undefined. -/
def isFinite (x : Binary64) : Bool := x.exponentBits < 2047

/-- The natural number in front of the power of two. -/
def significand (x : Binary64) : Nat :=
  if x.exponentBits = 0 then x.fractionBits else twoPow 52 + x.fractionBits

/-- The exponent of the power of two. -/
def exponent (x : Binary64) : Int := (max x.exponentBits 1 : Nat) - 1075

/-- The magnitude of a finite number as a fraction. -/
def ratio (x : Binary64) : Nat × Nat :=
  if 0 ≤ x.exponent then (x.significand * twoPow x.exponent.toNat, 1)
  else (x.significand, twoPow (-x.exponent).toNat)

/-- The number with its sign changed. -/
def neg (x : Binary64) : Binary64 := ⟨UInt64.ofNat ((x.bits.toNat + twoPow 63) % twoPow 64)⟩

/-- The number is zero, of either sign. -/
def isZero (x : Binary64) : Bool := x.significand == 0

/-- A fraction rounded to a natural number, halves to the even neighbour. -/
def roundHalfEven (num den : Nat) : Nat :=
  let q := num / den
  let twice := 2 * (num % den)
  if twice < den then q else if den < twice then q + 1 else q + q % 2

/-- The least exponent of two whose power exceeds `num / den`, for a positive fraction. -/
def magnitude (num den : Nat) : Int :=
  let guess : Int := (num.log2 : Int) - den.log2
  -- `num / den` lies between the powers of two with exponents `guess - 1` and `guess + 1`
  let below := if 0 ≤ guess then num < den * twoPow guess.toNat
    else num * twoPow (-guess).toNat < den
  if below then guess else guess + 1

/-- The number nearest to the fraction `num / den`, halves to the even significand. Fractions past
the largest number give infinity. -/
def ofRatio (num den : Nat) : Binary64 :=
  if num = 0 then ⟨0⟩
  else
    let e := max (magnitude num den - 53) (-1074)
    let m := if 0 ≤ e then roundHalfEven num (den * twoPow e.toNat)
      else roundHalfEven (num * twoPow (-e).toNat) den
    -- a significand of 54 bits carries into the exponent
    let bits := if m < twoPow 52 then m else ((e + 1074).toNat * twoPow 52 + m)
    ⟨UInt64.ofNat (min bits (2047 * twoPow 52))⟩

/-- The number nearest to a natural number. -/
def ofNat (n : Nat) : Binary64 := ofRatio n 1

/-- The magnitude of the product of two finite numbers, rounded. -/
def mul (x y : Binary64) : Binary64 :=
  ofRatio (x.ratio.1 * y.ratio.1) (x.ratio.2 * y.ratio.2)

/-- The magnitude of the quotient of two finite numbers, the second not zero, rounded. -/
def div (x y : Binary64) : Binary64 :=
  ofRatio (x.ratio.1 * y.ratio.2) (x.ratio.2 * y.ratio.1)

/-- A decimal `digits * 10 ^ exponent`. -/
structure Decimal where
  digits : Nat
  exponent : Int
deriving DecidableEq, Repr

/-- The value of a decimal as a fraction. -/
def Decimal.ratio (d : Decimal) : Nat × Nat :=
  if 0 ≤ d.exponent then (d.digits * tenPow d.exponent.toNat, 1)
  else (d.digits, tenPow (-d.exponent).toNat)

/-- The decimal reads back as the magnitude of `x`. -/
def readsBack (x : Binary64) (d : Decimal) : Bool :=
  (ofRatio d.ratio.1 d.ratio.2).bits.toNat == x.bits.toNat % twoPow 63

/-- The distance of two fractions, times both denominators. -/
def distance (a b : Nat × Nat) : Nat :=
  (a.1 * b.2 - b.1 * a.2) + (b.1 * a.2 - a.1 * b.2)

/-- Of the two neighbours of `x` among the multiples of `10 ^ exponent`, the nearer one that reads
back as `x`. -/
def neighbour? (x : Binary64) (exponent : Int) : Option Decimal :=
  let (num, den) := x.ratio
  let low := if 0 ≤ exponent then num / (den * tenPow exponent.toNat)
    else num * tenPow (-exponent).toNat / den
  let below : Decimal := ⟨low, exponent⟩
  let above : Decimal := ⟨low + 1, exponent⟩
  let far (d : Decimal) : Nat := distance d.ratio (num, den)
  match readsBack x below, readsBack x above with
  | true, true =>
    if far below < far above ∨ (far below = far above ∧ low % 2 = 0) then some below else some above
  | true, false => some below
  | false, true => some above
  | false, false => none

/-- The number of decimal digits of `n`. -/
def digitCount (n : Nat) : Nat := (Nat.toDigits 10 n).length

/-- The exponent of ten at which the first digit of a positive fraction stands. -/
def firstDigitExponent (num den : Nat) : Int :=
  if den ≤ num then (digitCount (num / den) : Int) - 1
  else
    -- `1 / 10 ^ k ≤ num / den` first holds for one of two values of `k`
    let k := digitCount (den / num)
    if den ≤ num * tenPow (k - 1) then -((k - 1 : Nat) : Int) else -(k : Int)

/-- The same value without trailing zeros in its digits. -/
def Decimal.dropZeros (d : Decimal) : Decimal :=
  if h : d.digits ≠ 0 ∧ d.digits % 10 = 0 then
    have : d.digits / 10 < d.digits := by omega
    Decimal.dropZeros ⟨d.digits / 10, d.exponent + 1⟩
  else d
termination_by d.digits

/-- The decimal with the fewest digits that reads back as the magnitude of the finite number `x`,
the nearest of these. Seventeen digits always suffice. -/
def shortest (x : Binary64) : Decimal :=
  if x.isZero then ⟨0, 0⟩
  else
    let first := firstDigitExponent x.ratio.1 x.ratio.2
    let found := (List.range 17).findSome? fun (n : Nat) => neighbour? x (first - n)
    (found.getD ⟨0, 0⟩).dropZeros

end Binary64

end ConnectorCatalog
