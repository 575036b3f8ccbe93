import ConnectorCatalog.Offset.Counter
import ConnectorCatalog.Source.Leading

/-!
# What stands above a definition, by line numbers

The lines of a source up to a definition, and the lines of the masked text up to the same offset, are
two lists that are read side by side: braces are counted in the masked line with the number of a line
of the source.
-/

namespace ConnectorCatalog.Offset

section
variable (mode : Overflow)

/-- Counts on from `braces`: the closing braces of a masked line are added, then its opening braces are
taken off. -/
def countBraces (braces : Int32) (line : List Char) : Except Fault Int32 := do
  let braces ← mode.count (braces.toInt + (Int32.ofNat (line.count '\x7d')).toInt)
  mode.count (braces.toInt - (Int32.ofNat (line.count '\x7b')).toInt)

/-- Walks up from masked line `i` to the line at which no closing brace lacks a partner, or to the
first line. Gives what lacks a partner there, and the number of that line. -/
def blockTop (masked : List (List Char)) : (i : Nat) → Int32 →
    Except Fault (Int32 × { top : Nat // top ≤ i })
  | 0, braces => do
    let line ← elementAt masked 0
    let braces ← countBraces mode braces line
    return (braces, ⟨0, Nat.le_refl 0⟩)
  | i + 1, braces => do
    let line ← elementAt masked (i + 1)
    let braces ← countBraces mode braces line
    if braces ≤ 0 then return (braces, ⟨i + 1, Nat.le_refl _⟩)
    else
      let (rest, top) ← blockTop masked i braces
      return (rest, ⟨top, Nat.le_succ_of_le top.2⟩)

/-- Walks up the lines below number `i`. -/
def walkUp (lines masked : List (List Char)) : Nat → Except Fault Leading
  | 0 => .ok Leading.empty
  | i + 1 => do
    let line ← elementAt lines i
    if (trim line).isEmpty then walkUp lines masked i
    else match Leading.textAfterMark? (trim line) with
      | some text =>
        let rest ← walkUp lines masked i
        return { rest with documentation := rest.documentation ++ [text] }
      | none =>
        let (braces, top) ← blockTop mode masked i 0
        let topLine ← elementAt lines top
        if braces = 0 ∧ (trimStart topLine).head? = some '@' then
          let block ← sliceList lines top (i + 1)
          let rest ← walkUp lines masked top
          return { rest with annotations := rest.annotations ++ block }
        else return Leading.empty
termination_by i => i
decreasing_by all_goals omega

/-- What stands above the definition at an offset. -/
def leadingMetadata (source masked : List Char) (start : Nat) : Except Fault Leading := do
  let before ← slice source 0 start
  let shown ← slice masked 0 start
  let lines := cutAll (· == '\n') before
  let maskedLines := cutAll (· == '\n') shown
  if lines.length ≠ maskedLines.length then .error (.lengths lines.length maskedLines.length)
  else
    let last ← predecessor lines.length
    let line ← elementAt lines last
    if (trim line).isEmpty then walkUp mode lines maskedLines last else return Leading.empty

end

end ConnectorCatalog.Offset
