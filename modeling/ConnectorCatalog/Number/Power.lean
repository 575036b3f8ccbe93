/-!
# Powers of two and of ten

The powers that binary and decimal numbers are scaled with.
-/

namespace ConnectorCatalog

/-- Two to the power `n`. -/
abbrev twoPow (n : Nat) : Nat := Nat.pow 2 n

/-- Ten to the power `n`. -/
abbrev tenPow (n : Nat) : Nat := Nat.pow 10 n

end ConnectorCatalog
