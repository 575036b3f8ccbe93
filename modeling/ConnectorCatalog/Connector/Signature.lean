import ConnectorCatalog.Connector.Basic
import ConnectorCatalog.Documentation
import ConnectorCatalog.Source.Bracket
import ConnectorCatalog.Source.Header

/-!
# Parameters and return types

A parameter list is cut at its top-level commas and each parameter at its first top-level equals
sign; in front of that stand annotations, a type and, after the last blank, a name. A return type
follows `returns` and ends at the body, a semicolon or an equals sign, the braces of record and
object types being part of it. The nesting of a type is counted exactly; with the counter of 32 bits
of `Offset.Signature` a type ends at the same place in a text of less than two to the power 31 bytes.
-/

namespace ConnectorCatalog

/-- What follows the name of an annotation and, if it has one, its mapping. A mapping ends at the
first closing brace. -/
def annotationRest (s : List Char) : List Char :=
  match trimStart (s.dropWhile fun c => !(isBlank c || c == '\x7b')) with
  | '\x7b' :: mapping => ((cutAtFirst (· == '\x7d') mapping).map Prod.snd).getD []
  | rest => rest

theorem length_trimStart_le (s : List Char) : (trimStart s).length ≤ s.length :=
  (List.dropWhile_sublist _).length_le

theorem length_annotationRest_le (s : List Char) : (annotationRest s).length ≤ s.length := by
  have hle : (trimStart (s.dropWhile fun c => !(isBlank c || c == '\x7b'))).length ≤ s.length :=
    Nat.le_trans (length_trimStart_le _) (List.dropWhile_sublist _).length_le
  unfold annotationRest
  split
  · rename_i mapping h
    rw [h] at hle
    cases hc : cutAtFirst (· == '\x7d') mapping with
    | none => simp
    | some p =>
      obtain ⟨c, -, hs, -⟩ := cutAtFirst_eq_some (a := p.1) (b := p.2) hc
      simp only [List.length_cons, hs, List.length_append] at hle
      simp only [Option.map_some, Option.getD_some]
      omega
  · exact hle

theorem length_annotationRest_lt {s r : List Char} (h : trimStart s = '@' :: r) :
    (annotationRest r).length < s.length := by
  have h1 := length_annotationRest_le r
  have h2 := length_trimStart_le s
  rw [h] at h2
  simp only [List.length_cons] at h2
  omega

/-- A declaration without the annotations and blanks before it. -/
def withoutAnnotations (s : List Char) : List Char :=
  match h : trimStart s with
  | '@' :: r =>
    have := length_annotationRest_lt h
    withoutAnnotations (annotationRest r)
  | rest => rest
termination_by s.length

/-- The parameter declared by some cells, if they hold a type and a name. -/
def Parameter.ofCells? (docs : Documentation) (s : List Cell) : Option Parameter :=
  match topPieces Cell.shown '=' s with
  | [] => none
  | declaration :: defaults =>
    (cutAtLast isBlank (withoutAnnotations (trim (chars declaration)))).map fun (type, name) =>
      let name := String.ofList (trim name)
      { name
        typeName := String.ofList (trim type)
        defaultable := !defaults.isEmpty
        documentation := docs.parameter? name }

/-- The parameters of a list, given the cells between its parentheses. -/
def parametersOf (docs : Documentation) (s : List Cell) : List Parameter :=
  ((topPieces Cell.shown ',' s).filter fun piece => !piece.all Cell.isBlankCode).filterMap
    (Parameter.ofCells? docs)

/-- The cells `seen`, given right to left, end in `w` and blanks. -/
def endsIn (w : String) (seen : List Cell) : Bool :=
  ((seen.dropWhile Cell.isBlankCode).map Cell.shown).take w.length == w.toList.reverse

/-- The cells of a type. `seen` holds those already passed, right to left, `depth` their nesting,
and the next `skip` cells belong to the braces of a record or object type. There is no type if such
braces are never closed. -/
def typeCells (seen : List Cell) (depth : Int) : Nat → List Cell → Option (List Cell)
  | _, [] => some seen.reverse
  | skip + 1, x :: s => typeCells (x :: seen) depth skip s
  | 0, x :: s =>
    let c := x.shown
    if c = '(' ∨ c = '[' ∨ c = '<' then typeCells (x :: seen) (depth + 1) 0 s
    else if c = ')' ∨ c = ']' ∨ c = '>' then typeCells (x :: seen) (depth - 1) 0 s
    else if c = '\x7b' ∧ depth = 0 then
      if endsIn "record" seen || endsIn "object" seen then
        match closeIndex? Cell.shown (x :: s) with
        | some close => typeCells (x :: seen) depth close s
        | none => none
      else some seen.reverse
    else if (c = ';' ∨ c = '=') ∧ depth = 0 then some seen.reverse
    else typeCells (x :: seen) depth 0 s

/-- The type after `returns`, given the cells that follow a parameter list up to the end of the
class. -/
def returnTypeOf (s : List Cell) : Option String :=
  match keyword? "returns".toList (afterBlanks s) with
  | none => none
  | some r =>
    match typeCells [] 0 0 r with
    | none => none
    | some type =>
      let name := trim (chars type)
      if name.isEmpty then none else some (String.ofList name)

end ConnectorCatalog
