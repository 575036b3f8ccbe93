import ConnectorCatalog.Source.Cell

/-!
# What stands above a definition

The documentation lines and annotations directly above a definition are found by walking up its
lines. Blank lines are passed over, a line that begins with `#` is documentation, and a run of lines
whose braces balance and whose topmost begins with `@` is an annotation. The walk ends at the first
line that is none of these. Braces are counted exactly; the counters of 32 bits that stand for that are
in `Offset.Leading`, and they say the same of a text of less than two to the power 31 bytes.
-/

namespace ConnectorCatalog

/-- Documentation lines and annotation lines above a definition, top to bottom. -/
structure Leading where
  documentation : List (List Char)
  annotations : List (List Char)
deriving DecidableEq, Repr

namespace Leading

/-- Nothing stands above. -/
def empty : Leading := ⟨[], []⟩

/-- The line is blank, comments not counting as blanks. -/
def isBlankLine (line : List Cell) : Bool := (trim (chars line)).isEmpty

/-- The text of a documentation line without the blanks around it: what follows its mark and one
space after that. -/
def textAfterMark? : List Char → Option (List Char)
  | '#' :: ' ' :: text => some (trimEnd text)
  | '#' :: text => some (trimEnd text)
  | _ => none

/-- The text of a documentation line. -/
def documentation? (line : List Cell) : Option (List Char) := textAfterMark? (trim (chars line))

/-- Closing braces of a line less its opening braces. -/
def unopened : List Cell → Int
  | [] => 0
  | x :: line => (if x.shown = '}' then 1 else if x.shown = '{' then -1 else 0) + unopened line

/-- The line begins an annotation. -/
def startsAnnotated (line : List Cell) : Bool := (trimStart (chars line)).head? == some '@'

/-- Walks up `lines`, given bottom to top. `block` holds the lines of the annotation that is being
walked over, top to bottom, and `braces` how many of its closing braces still lack a partner. -/
def above (block : List (List Cell)) (braces : Int) : List (List Cell) → Leading
  | [] => empty
  | line :: up =>
    if block.isEmpty && isBlankLine line then above [] 0 up
    else match (if block.isEmpty then documentation? line else none) with
      | some text =>
        let rest := above [] 0 up
        { rest with documentation := rest.documentation ++ [text] }
      | none =>
        let braces := braces + unopened line
        if braces ≤ 0 ∨ up = [] then
          if braces = 0 ∧ startsAnnotated line then
            let rest := above [] 0 up
            { rest with annotations := rest.annotations ++ (line :: block).map chars }
          else empty
        else above (line :: block) braces up

/-- What stands above a definition that follows the cells `before`. Only blanks may stand before it
on its own line. -/
def ofBefore (before : List Cell) : Leading :=
  match (cutAll (fun x => x.char == '\n') before).reverse with
  | [] => empty
  | line :: up => if isBlankLine line then above [] 0 up else empty

/-- The documentation lines as texts. -/
def documentationLines (l : Leading) : List String := l.documentation.map String.ofList

/-- The annotation lines as one text. -/
def annotationText (l : Leading) : List Char := joinWith ['\n'] l.annotations

end Leading

end ConnectorCatalog
