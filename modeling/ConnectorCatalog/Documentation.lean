import ConnectorCatalog.Text.Blank

/-!
# Documentation

What the documentation lines above a definition say: a description, a text for each parameter in
lines `+ name - text`, and one for the returned value in lines `+ return - text`. Lines are read top
to bottom; of several texts for the returned value the last one counts, of several for a parameter
the first.
-/

namespace ConnectorCatalog

/-- Documentation of a definition. -/
structure Documentation where
  description : Option String
  parameters : List (String × String)
  returns : Option String
deriving DecidableEq, Repr

namespace Documentation

/-- One line of documentation. -/
inductive Line
  | description (text : List Char)
  | parameter (name text : List Char)
  | returns (text : List Char)
deriving DecidableEq, Repr

/-- Reads a line: an entry begins with a plus sign, and ` - ` stands before its text. -/
def Line.ofChars (line : List Char) : Line :=
  match trimStart line with
  | '+' :: entry =>
    let (name, text) := match cutAround " - ".toList entry with
      | some (name, text) => (trim name, trim text)
      | none => (trim entry, [])
    if name = "return".toList then .returns text else .parameter name text
  | _ => .description (trim line)

/-- The text of a description line. -/
def Line.description? : Line → Option (List Char)
  | .description text => some text
  | _ => none

/-- The name and text of a parameter line. -/
def Line.parameter? : Line → Option (String × String)
  | .parameter name text => some (String.ofList name, String.ofList text)
  | _ => none

/-- The text of a line for the returned value. -/
def Line.returns? : Line → Option String
  | .returns text => some (String.ofList text)
  | _ => none

/-- The description: its lines joined, without the blanks around them, if anything is left. -/
def describe (lines : List Line) : Option String :=
  let text := trim (joinWith ['\n'] (lines.filterMap Line.description?))
  if text.isEmpty then none else some (String.ofList text)

/-- Documentation from its lines. -/
def ofLines (lines : List String) : Documentation :=
  let lines := lines.map fun line => Line.ofChars line.toList
  { description := describe lines
    parameters := lines.filterMap Line.parameter?
    returns := (lines.filterMap Line.returns?).getLast? }

/-- The text of the parameter called `name`. -/
def parameter? (d : Documentation) (name : String) : Option String := d.parameters.lookup name

end Documentation

end ConnectorCatalog
