/-!
# Ranges of integers

The integers that words of 32 and 64 bits hold, with a sign or without.
-/

namespace ConnectorCatalog

/-- The integers from `least` to `greatest`. -/
structure IntegerRange where
  least : Int
  greatest : Int
deriving DecidableEq, Repr

namespace IntegerRange

/-- The integer lies in the range. -/
def has (r : IntegerRange) (n : Int) : Bool := r.least ≤ n && n ≤ r.greatest

/-- 32 bits with a sign. -/
def signed32 : IntegerRange := ⟨-2147483648, 2147483647⟩

/-- 32 bits without a sign. -/
def unsigned32 : IntegerRange := ⟨0, 4294967295⟩

/-- 64 bits with a sign. -/
def signed64 : IntegerRange := ⟨-9223372036854775808, 9223372036854775807⟩

/-- 64 bits without a sign. -/
def unsigned64 : IntegerRange := ⟨0, 18446744073709551615⟩

end IntegerRange

end ConnectorCatalog
