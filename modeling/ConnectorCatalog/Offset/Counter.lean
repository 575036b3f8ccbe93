import ConnectorCatalog.Offset.Slice

/-!
# Counters of 32 bits

Open brackets are counted with 32 bits. A count that they do not hold is either a fault or goes on
at the other end of their range; which of the two is settled when the program is built.
-/

namespace ConnectorCatalog.Offset

/-- What becomes of a count that does not fit 32 bits. -/
inductive Overflow
  /-- It is a fault. -/
  | fails
  /-- It goes on at the other end. -/
  | wraps
deriving DecidableEq, Repr

/-- The first count that does not fit, two to the power 31. -/
def countLimit : Nat := 2147483648

/-- A counter of 32 bits can hold `n`. -/
def Fits (n : Int) : Prop := -countLimit ≤ n ∧ n < countLimit

instance (n : Int) : Decidable (Fits n) := inferInstanceAs (Decidable (_ ∧ _))

/-- The counter for a count of `n`. -/
def Overflow.count (mode : Overflow) (n : Int) : Except Fault Int32 :=
  if mode = .fails ∧ ¬ Fits n then .error .overflow else .ok (Int32.ofInt n)

end ConnectorCatalog.Offset
