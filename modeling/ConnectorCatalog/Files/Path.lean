import ConnectorCatalog.Text.Blank

/-!
# Paths

Paths are texts whose components are separated by slashes. Empty components and single dots name no
step, except a dot that a relative path begins with. Joining keeps the text as it is, and the parent
of a path is the text up to the component before its last, so the ancestors of a relative path end
with the empty path.
-/

namespace ConnectorCatalog

/-- A path. -/
abbrev Path := List Char

namespace Path

/-- A path from a text. -/
def ofString (text : String) : Path := text.toList

/-- The path begins at the root. -/
def isAbsolute (p : Path) : Bool := p.head? == some '/'

/-- `q` below `p`: `q` itself if it is absolute. -/
def join (p q : Path) : Path :=
  if q.isAbsolute then q
  else if p.isEmpty then q
  else if p.getLast? = some '/' then p ++ q
  else p ++ '/' :: q

/-- `p` with a name below it. -/
def child (p : Path) (name : String) : Path := p.join name.toList

/-- A component of a path: its name, and the path up to its end. -/
structure Step where
  name : List Char
  upTo : Path
deriving DecidableEq, Repr

/-- The step that a piece between slashes names, if it names one. `isFirst` says that no slash comes
before it. -/
def step? (before piece : List Char) (isFirst : Bool) : Option Step :=
  if piece = [] ∨ (piece = ['.'] ∧ !isFirst) then none else some ⟨piece.reverse, before.reverse⟩

/-- The steps of a path of which `before`, given right to left, has been passed; `piece`, also right
to left, is its part after the last slash. -/
def stepsFrom (before piece : List Char) (isFirst : Bool) : List Char → List Step
  | [] => (step? before piece isFirst).toList
  | c :: r =>
    if c = '/' then
      (step? before piece isFirst).toList ++ stepsFrom (c :: before) [] false r
    else stepsFrom (c :: before) (c :: piece) isFirst r

/-- The steps of a path; the root is the first step of an absolute path. -/
def steps (p : Path) : List Step :=
  match p with
  | '/' :: r => ⟨['/'], ['/']⟩ :: stepsFrom ['/'] [] false r
  | _ => stepsFrom [] [] true p

/-- The paths that lead to a path, nearest first. -/
def properAncestors (p : Path) : List Path :=
  let above := (p.steps.dropLast.map Step.upTo).reverse
  if p.steps.isEmpty || p.isAbsolute then above else above ++ [[]]

/-- The path without its last component. The root and the empty path have no parent. -/
def parent? (p : Path) : Option Path := p.properAncestors.head?

/-- The path, its parent, and so on. -/
def ancestors (p : Path) : List Path := p :: p.properAncestors

/-- The name that a path ends in; the root and a path that ends in dots have none. -/
def fileName? (p : Path) : Option String :=
  match p.steps.getLast? with
  | some s =>
    if s.name = ['/'] ∨ s.name = ['.'] ∨ s.name = ['.', '.'] then none
    else some (String.ofList s.name)
  | none => none

/-- The name that a path ends in, empty if it has none. -/
def fileName (p : Path) : String := p.fileName?.getD ""

/-- The extension of a name: what follows its last dot, if something comes before that. -/
def extensionOf (name : String) : Option (List Char) :=
  match cutAtLast (· == '.') name.toList with
  | some (stem, extension) => if stem.isEmpty then none else some extension
  | none => none

/-- The extension of the name that a path ends in. -/
def extension? (p : Path) : Option (List Char) := p.fileName?.bind extensionOf

/-- A single ordinary component: not empty, no dots alone, no separator of any kind. -/
def isPlainName (name : String) : Bool :=
  let s := name.toList
  !s.isEmpty && s != ['.'] && s != ['.', '.'] && !s.contains '/' && !s.contains '\\'

end Path

end ConnectorCatalog
