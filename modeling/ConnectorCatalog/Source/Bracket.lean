/-!
# Brackets

Nesting, partners and top-level pieces of a text that is seen through a function `view` giving the
character at each member. Nesting counts the three kinds `{}`, `()` and `[]` together, a partner is
looked for by counting its own kind alone, and pieces are cut where the nesting of all kinds,
angle brackets included, is zero. The counts are exact; the counters of 32 bits that stand for them
are in `Offset.Bracket`, and they agree on a text of less than two to the power 31 bytes.
-/

namespace ConnectorCatalog

/-- The bracket that closes `c`, for the three kinds that nest code. -/
def closing? (c : Char) : Option Char :=
  if c = '{' then some '}' else if c = '(' then some ')' else if c = '[' then some ']' else none

/-- What a character adds to the nesting. -/
def nestingStep (c : Char) : Int :=
  if c = '{' ∨ c = '(' ∨ c = '[' then 1 else if c = '}' ∨ c = ')' ∨ c = ']' then -1 else 0

/-- What a character adds to the nesting where angle brackets count too. -/
def typeNestingStep (c : Char) : Int :=
  if c = '<' then 1 else if c = '>' then -1 else nestingStep c

section
variable {α : Type _} (view : α → Char)

/-- Openings less closings. -/
def nesting : List α → Int
  | [] => 0
  | x :: r => nestingStep (view x) + nesting r

/-- The index at which the closings have made up for `depth` openings. -/
def closeFrom (opening closing : Char) : Nat → List α → Option Nat
  | _, [] => none
  | depth, x :: r =>
    if view x = opening then (closeFrom opening closing (depth + 1) r).map (· + 1)
    else if view x = closing then
      if depth ≤ 1 then some 0 else (closeFrom opening closing (depth - 1) r).map (· + 1)
    else (closeFrom opening closing depth r).map (· + 1)

/-- The index of the partner of the opening bracket that `s` begins with. -/
def closeIndex? : List α → Option Nat
  | [] => none
  | x :: r =>
    match closing? (view x) with
    | none => none
    | some closing => (closeFrom view (view x) closing 1 r).map (· + 1)

/-- What the bracket that `s` begins with encloses, and what follows its partner. -/
def enclosed? (s : List α) : Option (List α × List α) :=
  (closeIndex? view s).map fun i => ((s.take i).drop 1, s.drop (i + 1))

/-- Cuts `s` where `separator` stands at nesting zero; `depth` is the nesting so far. -/
def topPiecesFrom (separator : Char) : Int → List α → List (List α)
  | _, [] => [[]]
  | depth, x :: r =>
    let c := view x
    if c = separator ∧ typeNestingStep c = 0 ∧ depth = 0 then
      [] :: topPiecesFrom separator depth r
    else match topPiecesFrom separator (depth + typeNestingStep c) r with
      | [] => [[x]]
      | piece :: pieces => (x :: piece) :: pieces

/-- The pieces of `s` between the separators at nesting zero. -/
def topPieces (separator : Char) (s : List α) : List (List α) :=
  topPiecesFrom view separator 0 s

theorem topPiecesFrom_ne_nil (separator : Char) (depth : Int) (s : List α) :
    topPiecesFrom view separator depth s ≠ [] := by
  cases s with
  | nil => simp [topPiecesFrom]
  | cons x r =>
    rw [topPiecesFrom]
    split
    · simp
    · split <;> simp

/-- There is always a first piece. -/
theorem topPieces_ne_nil (separator : Char) (s : List α) : topPieces view separator s ≠ [] :=
  topPiecesFrom_ne_nil view separator 0 s

end

end ConnectorCatalog
