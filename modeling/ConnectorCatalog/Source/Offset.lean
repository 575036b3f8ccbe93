import ConnectorCatalog.Offset.Bracket
import ConnectorCatalog.Source.Leading

/-!
# Byte offsets

Brackets, and what stands above a definition, with places named by byte offsets. Counts that do not
fit 32 bits wrap around.
-/

namespace ConnectorCatalog

/-- The offset of the partner of the bracket at offset `opening`. -/
def closeOffset? (bytes : List UInt8) (opening : Nat) : Option Nat :=
  (closeIndex? byteView (bytes.drop opening)).map (opening + ·)

/-- Openings less closings between two offsets, none if these are no range. -/
def nestingBetween (bytes : List UInt8) (first last : Nat) : Int :=
  match Offset.nestingDepth .wraps bytes first last with
  | .ok depth => depth.toInt
  | .error _ => 0

/-- The ranges of the top-level pieces between two offsets, none if these are no range. -/
def topRanges (bytes : List UInt8) (first last : Nat) (separator : Char) : List (Nat × Nat) :=
  match Offset.splitTopLevel .wraps bytes first last separator with
  | .ok ranges => ranges
  | .error _ => []

/-- The cells that make up the first `offset` bytes of a source. -/
def cellsBefore : Nat → List Cell → List Cell
  | _, [] => []
  | offset, x :: s =>
    if x.char.utf8Size ≤ offset then x :: cellsBefore (offset - x.char.utf8Size) s else []

/-- What stands above the place at byte `offset` of a source. -/
def leadingAt (source : String) (offset : Nat) : Leading :=
  Leading.ofBefore (cellsBefore offset (cells source.toList))

end ConnectorCatalog
