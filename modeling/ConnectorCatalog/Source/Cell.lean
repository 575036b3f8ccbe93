import ConnectorCatalog.Text.Blank

/-!
# Source text as cells

A Ballerina source is read once, character by character, into cells that record which characters
are code. Comments, documentation lines and the contents of string and template literals are not;
they show as blanks (`Cell.shown`). A line break is always code, so the lines of the shown text are
the lines of the source (`newline_isCode`), and no character is lost (`chars_cells`).
-/

namespace ConnectorCatalog

/-- One character of a source. -/
structure Cell where
  char : Char
  isCode : Bool
deriving DecidableEq, Repr

namespace Cell

/-- The character if it is code, a space otherwise. -/
def shown (x : Cell) : Char := if x.isCode then x.char else ' '

/-- The character if it is code, otherwise as many spaces as its UTF-8 form has bytes. -/
def masked (x : Cell) : List Char :=
  if x.isCode then [x.char] else List.replicate x.char.utf8Size ' '

/-- A character that is not code shows as a blank. -/
def isBlankCode (x : Cell) : Bool := isBlank x.shown

end Cell

/-- What the scanner is inside of. `escaped` is a string just after a backslash. -/
inductive Context
  | code
  | lineComment
  | documentation
  | string
  | escaped
  | template
deriving DecidableEq, Repr

/-- The state of the scanner: what it is inside of, and whether the line has shown only blanks. -/
structure Scan where
  context : Context
  atLineStart : Bool
deriving DecidableEq, Repr

namespace Scan

/-- A source begins in code, at the start of a line. -/
def start : Scan := ⟨.code, true⟩

/-- Where a line break leaves the scanner: it ends comments, documentation and an escape. -/
def afterNewline : Context → Context
  | .string | .escaped => .string
  | .template => .template
  | .code | .lineComment | .documentation => .code

/-- Where a character other than a line break leads, and whether it is code. `slashNext` says
that a slash follows it. -/
def read (s : Scan) (c : Char) (slashNext : Bool) : Context × Bool :=
  match s.context with
  | .code =>
    if c = '/' ∧ slashNext then (.lineComment, false)
    else if c = '#' ∧ s.atLineStart then (.documentation, false)
    else if c = '"' then (.string, true)
    else if c = '`' then (.template, true)
    else (.code, true)
  | .lineComment => (.lineComment, false)
  | .documentation => (.documentation, false)
  | .string =>
    if c = '\\' then (.escaped, false)
    else if c = '"' then (.code, true)
    else (.string, false)
  | .escaped => (.string, false)
  | .template => if c = '`' then (.code, true) else (.template, false)

/-- Reads one character: the state after it, and its cell. -/
def step (s : Scan) (c : Char) (slashNext : Bool) : Scan × Cell :=
  if c = '\n' then (⟨afterNewline s.context, true⟩, ⟨c, true⟩)
  else
    let (context, isCode) := s.read c slashNext
    (⟨context, s.atLineStart && (c == ' ' || c == '\t' || c == '\r')⟩, ⟨c, isCode⟩)

/-- The cells of a text read from state `s`. -/
def cells (s : Scan) : List Char → List Cell
  | [] => []
  | c :: r =>
    let (s', x) := s.step c (r.head? == some '/')
    x :: s'.cells r

/-- The state after a text read from state `s`. -/
def final (s : Scan) : List Char → Scan
  | [] => s
  | c :: r => (s.step c (r.head? == some '/')).1.final r

end Scan

/-- The cells of a source. -/
def cells (source : List Char) : List Cell := Scan.start.cells source

/-- The characters of some cells. -/
def chars (xs : List Cell) : List Char := xs.map Cell.char

/-- The text of some cells with everything that is not code blanked, byte for byte. -/
def masked (xs : List Cell) : List Char := xs.flatMap Cell.masked

/-- Blanks comments, documentation lines and literal contents. -/
def mask (source : String) : String := String.ofList (masked (cells source.toList))

theorem Scan.step_char (s : Scan) (c : Char) (b : Bool) : (s.step c b).2.char = c := by
  unfold Scan.step
  split <;> rfl

/-- Scanning loses no character. -/
theorem Scan.chars_cells (s : Scan) (t : List Char) : chars (s.cells t) = t := by
  induction t generalizing s with
  | nil => rfl
  | cons c r ih => simpa [Scan.cells, chars, Scan.step_char] using ih _

theorem chars_cells (t : List Char) : chars (cells t) = t := Scan.start.chars_cells t

/-- A line break is code. -/
theorem Scan.newline_isCode (s : Scan) (t : List Char) :
    ∀ x ∈ s.cells t, x.char = '\n' → x.isCode = true := by
  induction t generalizing s with
  | nil => simp [Scan.cells]
  | cons c r ih =>
    intro x hx hn
    simp only [Scan.cells, List.mem_cons] at hx
    rcases hx with rfl | hx
    · rw [Scan.step_char] at hn
      simp [Scan.step, hn]
    · exact ih _ x hx hn

end ConnectorCatalog
