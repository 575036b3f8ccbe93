import ConnectorCatalog.Proofs.ClientMethod
import ConnectorCatalog.Proofs.Offset.Cells
import ConnectorCatalog.Proofs.Offset.Parameter
import ConnectorCatalog.Proofs.Parameters.Basic
import ConnectorCatalog.Proofs.Segment
import ConnectorCatalog.Proofs.Trim

/-!
# Parameter lists are read back as they were written

A parameter is written as a type, a blank and a name, possibly an equals sign and a default, with
blanks around all that. Types and defaults have their brackets in order and no comma outside of
them, so a parameter lies in one piece of the list (`whole_cells`) and its declaration in one piece
of the parameter (`ofCells?_cells`). A method whose parameters are so written is found with these
parameters, all of them and in order (`parameters_written`).
-/

namespace ConnectorCatalog

open Offset (chars_append)

/-- A name without blanks, brackets and the signs that mean something around it. -/
def IsName (n : List Char) : Prop :=
  n ≠ [] ∧ ∀ c ∈ n, isBlank c = false ∧
    c ∉ ['"', '`', '#', '/', ',', '=', '(', ')', '[', ']', '\x7b', '\x7d', '<', '>']

instance (n : List Char) : Decidable (IsName n) :=
  have : Decidable (∀ c ∈ n, isBlank c = false ∧
    c ∉ ['"', '`', '#', '/', ',', '=', '(', ')', '[', ']', '\x7b', '\x7d', '<', '>']) :=
    List.decidableBAll _ n
  inferInstanceAs (Decidable (_ ∧ _))

/-- A parameter and the blanks around it, as it is written. -/
structure WrittenParameter where
  before : List Char
  type : List Char
  name : List Char
  default? : Option (List Char)
  after : List Char
deriving DecidableEq, Repr

namespace WrittenParameter

/-- The type and the name. -/
def declaration (p : WrittenParameter) : List Char := p.before ++ (p.type ++ ' ' :: p.name)

/-- The equals sign and the default. -/
def defaultText (p : WrittenParameter) : List Char :=
  match p.default? with
  | none => []
  | some e => " = ".toList ++ e

def text (p : WrittenParameter) : List Char := p.declaration ++ (p.defaultText ++ p.after)

/-- A parameter is written as it should be: its type and its default are well nested over all four
kinds of brackets, with commas, and in the type equals signs, inside them only. In the type there
are no quotes, number signs and slashes, in the default strings and templates are closed. -/
structure IsWritten (p : WrittenParameter) : Prop where
  before : ∀ c ∈ p.before, isBlank c = true
  type_ne_nil : p.type ≠ []
  type_trim : trim p.type = p.type
  type_head : p.type.head? ≠ some '@'
  type_plain : IsPlain p.type
  type_nested : nested id [',', '='] p.type = true
  name : IsName p.name
  default_closed : ∀ e ∈ p.default?, (Scan.inLine.final e).context = .code
  default_nested : ∀ e ∈ p.default?, nested Cell.shown [','] (Scan.inLine.cells e) = true
  after : ∀ c ∈ p.after, isBlank c = true

/-- The parameter that is written, with what is said about its name. -/
def parameter (docs : Documentation) (p : WrittenParameter) : Parameter :=
  { name := String.ofList p.name
    typeName := String.ofList p.type
    defaultable := p.default?.isSome
    documentation := docs.parameter? (String.ofList p.name) }

/-- The cells of the equals sign and the default. -/
def defaultCells (p : WrittenParameter) : List Cell :=
  match p.default? with
  | none => []
  | some e => plain " = ".toList ++ Scan.inLine.cells e

/-- The cells of a written parameter. -/
def cells (p : WrittenParameter) : List Cell :=
  plain p.declaration ++ (p.defaultCells ++ plain p.after)

section Cells

variable {p : WrittenParameter} {s : Scan}

theorem isPlain_declaration (hp : p.IsWritten) : IsPlain p.declaration := by
  have hname : IsPlain p.name := fun c hc => by
    have := (hp.name.2 c hc).2
    simp only [List.mem_cons, not_or] at this
    exact ⟨this.1, this.2.1, this.2.2.1, this.2.2.2.1⟩
  have hblank : IsPlain [' '] := by decide
  rw [declaration, List.append_cons, isPlain_append, isPlain_append, isPlain_append]
  exact ⟨isPlain_of_isBlank hp.before, ⟨hp.type_plain, hblank⟩, hname⟩

theorem cells_defaultText (hp : p.IsWritten) (hs : s.context = .code) :
    s.cells p.defaultText = p.defaultCells ∧ (s.final p.defaultText).context = .code := by
  rw [defaultText, defaultCells]
  cases he : p.default? with
  | none => exact ⟨rfl, hs⟩
  | some e =>
    have hplain : IsPlain " = ".toList := by decide
    have hfinal : s.final " = ".toList = Scan.inLine := by
      simp [Scan.final, Scan.step, Scan.read, hs, Scan.inLine]
    obtain ⟨hcells, hcontext⟩ := Scan.append_of_apart _ e (Scan.apart_of_isPlain (s := s) hplain e)
    rw [(Scan.cells_of_isPlain hs hplain).1, hfinal] at hcells
    rw [hfinal] at hcontext
    exact ⟨hcells, by rw [hcontext, hp.default_closed e he]⟩

/-- A written parameter has the same cells wherever it is read in code, and leaves the scanner in
code. -/
theorem cells_text (hp : p.IsWritten) (hs : s.context = .code) :
    s.cells p.text = p.cells ∧ (s.final p.text).context = .code := by
  have hdeclaration := isPlain_declaration hp
  have hafter := isPlain_of_isBlank hp.after
  obtain ⟨hcells, hcontext⟩ := Scan.cells_of_isPlain hs hdeclaration
  obtain ⟨hcells', hcontext'⟩ := cells_defaultText hp hcontext
  obtain ⟨hcells'', hcontext''⟩ := Scan.cells_of_isPlain hcontext' hafter
  have happart : (s.final p.declaration).Apart p.defaultText p.after := by
    refine .inr fun h => ?_
    exact (hafter _ (List.mem_of_head? h)).2.2.2 rfl
  rw [text, cells, (Scan.append_of_apart _ _ (Scan.apart_of_isPlain hdeclaration _)).1,
    (Scan.append_of_apart _ _ (Scan.apart_of_isPlain hdeclaration _)).2,
    (Scan.append_of_apart _ _ happart).1, (Scan.append_of_apart _ _ happart).2, hcells, hcells',
    hcells'']
  exact ⟨rfl, hcontext''⟩

theorem nested_declaration (hp : p.IsWritten) :
    nested Cell.shown [',', '='] (plain p.declaration) = true := by
  have hplain : nested Cell.shown [',', '='] (plain p.declaration)
      = nested id [',', '='] p.declaration := nestedFrom_map ..
  have hbefore : nested id [',', '='] p.before = true :=
    nested_of_blank hp.before (by decide)
  have hname : nested id [',', '='] (' ' :: p.name) = true := by
    refine nested_of_forall fun c hc => ?_
    rcases List.mem_cons.1 hc with rfl | hc
    · decide
    · have := (hp.name.2 c hc).2
      simp only [List.mem_cons, List.not_mem_nil, or_false, not_or] at this
      refine ⟨typeClosing?_eq_none ?_, isTypeClosing_eq_false ?_, ?_⟩ <;> simp [this]
  rw [hplain]
  exact nested_append hbefore (nested_append hp.type_nested hname)

theorem nested_defaultCells (hp : p.IsWritten) : nested Cell.shown [','] p.defaultCells = true := by
  rw [defaultCells]
  cases he : p.default? with
  | none => rfl
  | some e => exact nested_append (by decide) (hp.default_nested e he)

theorem isBlank_shown_plain {b : List Char} (hb : ∀ c ∈ b, isBlank c = true) :
    ∀ x ∈ plain b, isBlank x.shown = true := by
  intro x hx
  obtain ⟨c, hc, rfl⟩ := List.mem_map.1 hx
  exact hb c hc

/-- A written parameter lies in one piece of its list. -/
theorem whole_cells (hp : p.IsWritten) : Whole Cell.shown ',' p.cells :=
  (whole_of_nested (by decide) (nested_declaration hp)).append
    ((whole_of_nested (by decide) (nested_defaultCells hp)).append
      (whole_of_blank (by decide) (isBlank_shown_plain hp.after)))

theorem neutral_cells (hp : p.IsWritten) : Neutral Cell.shown p.cells :=
  Neutral.append (neutral_of_nested (nested_declaration hp))
    (Neutral.append (neutral_of_nested (nested_defaultCells hp))
      (neutral_of_blank (isBlank_shown_plain hp.after)))

/-- The declaration lies in the first piece of a written parameter, and there is another one if
there is a default. -/
theorem topPieces_cells (hp : p.IsWritten) : ∃ b rest,
    topPieces Cell.shown '=' p.cells = plain (p.declaration ++ b) :: rest ∧
      (∀ c ∈ b, isBlank c = true) ∧ rest.isEmpty = !p.default?.isSome := by
  have hwhole : ∀ {b}, (∀ c ∈ b, isBlank c = true) →
      Whole Cell.shown '=' (plain (p.declaration ++ b)) := by
    intro b hb
    rw [plain_append]
    exact (whole_of_nested (by decide) (nested_declaration hp)).append
      (whole_of_blank (by decide) (isBlank_shown_plain hb))
  rw [cells, defaultCells]
  cases he : p.default? with
  | none =>
    refine ⟨p.after, [], ?_, hp.after, rfl⟩
    rw [List.nil_append, ← plain_append]
    exact (hwhole hp.after).pieces
  | some e =>
    have hblank : ∀ c ∈ [' '], isBlank c = true := List.all_eq_true.1 (by decide)
    have hsplit : plain p.declaration
          ++ (plain " = ".toList ++ Scan.inLine.cells e ++ plain p.after)
        = plain (p.declaration ++ [' '])
          ++ ⟨'=', true⟩ :: (plain [' '] ++ (Scan.inLine.cells e ++ plain p.after)) := by
      simp [plain]
    obtain ⟨piece, pieces, hrest⟩ := List.exists_cons_of_ne_nil
      (topPieces_ne_nil Cell.shown '=' (plain [' '] ++ (Scan.inLine.cells e ++ plain p.after)))
    refine ⟨[' '], piece :: pieces, ?_, hblank, rfl⟩
    rw [hsplit, topPieces_append_cut (hwhole hblank).nesting (by decide) (by decide),
      (hwhole hblank).pieces, hrest]
    rfl

end Cells

section Read

variable {p : WrittenParameter}

/-- The first character of a type is no blank. -/
theorem exists_first (hp : p.IsWritten) :
    ∃ c r, p.type = c :: r ∧ isBlank c = false ∧ c ≠ '@' := by
  obtain ⟨c, r, hr⟩ := List.exists_cons_of_ne_nil hp.type_ne_nil
  refine ⟨c, r, hr, isBlank_of_trim (hr ▸ hp.type_trim), ?_⟩
  rintro rfl
  exact hp.type_head (by rw [hr]; rfl)

/-- The declaration of a written parameter is cut into its type and its name. -/
theorem cutAtLast_declaration (hp : p.IsWritten) {b : List Char} (hb : ∀ c ∈ b, isBlank c = true) :
    cutAtLast isBlank (withoutAnnotations (trim (p.declaration ++ b))) = some (p.type, p.name) := by
  have hname : ∀ c ∈ p.name, isBlank c = false := fun c hc => (hp.name.2 c hc).1
  obtain ⟨c, r, hr, hc, hmark⟩ := exists_first hp
  have hstart : trimStart (p.type ++ ' ' :: p.name) = p.type ++ ' ' :: p.name := by
    rw [hr, List.cons_append, trimStart_cons hc]
  have hend : trimEnd (p.type ++ ' ' :: p.name) = p.type ++ ' ' :: p.name := by
    have := trimEnd_append (p.type ++ [' ']) (s := p.name)
      (by rw [trimEnd_of_not_blank hname]; exact hp.name.1)
    rwa [List.append_assoc, List.singleton_append, trimEnd_of_not_blank hname, List.append_assoc,
      List.singleton_append] at this
  rw [declaration, trim_surrounded hp.before hb, trim_eq, hstart, hend,
    withoutAnnotations_of_none ?_, hstart, cutAtLast_append hname (by decide)]
  rw [hstart, hr, List.cons_append, List.head?_cons, Ne, Option.some_inj]
  exact hmark

theorem ofCells?_cells (docs : Documentation) (hp : p.IsWritten) :
    Parameter.ofCells? docs p.cells = some (p.parameter docs) := by
  have hname : trim p.name = p.name := by
    have hnot : ∀ c ∈ p.name, isBlank c = false := fun c hc => (hp.name.2 c hc).1
    obtain ⟨c, r, hr⟩ := List.exists_cons_of_ne_nil hp.name.1
    have hstart : trimStart p.name = p.name := by
      rw [hr, trimStart_cons (hnot c (by rw [hr]; exact List.mem_cons_self ..))]
    rw [trim_eq, hstart, trimEnd_of_not_blank hnot]
  obtain ⟨b, rest, hpieces, hb, hrest⟩ := topPieces_cells hp
  rw [Parameter.ofCells?, hpieces]
  simp only [chars_plain, cutAtLast_declaration hp hb, Option.map_some, hname, hp.type_trim, hrest,
    Bool.not_not]
  rfl

/-- A written parameter is not blank. -/
theorem not_all_blank (hp : p.IsWritten) : p.cells.all Cell.isBlankCode = false := by
  obtain ⟨c, r, hr, hc, -⟩ := exists_first hp
  rw [List.all_eq_false]
  refine ⟨⟨c, true⟩, ?_, ?_⟩
  · rw [cells, declaration, hr, plain_append]
    simp [plain]
  · rw [Cell.isBlankCode, Cell.shown, if_pos rfl, hc]
    exact Bool.false_ne_true

theorem parametersOf_cells (docs : Documentation) (hp : p.IsWritten) :
    parametersOf docs p.cells = [p.parameter docs] :=
  parametersOf_of_uncut (whole_cells hp).pieces (not_all_blank hp) (ofCells?_cells docs hp)

end Read

end WrittenParameter

/-- Parameters with commas between them, or blanks where there are none. -/
def writtenList (blanks : List Char) : List WrittenParameter → List Char
  | [] => blanks
  | p :: ps => joinWith [','] ((p :: ps).map WrittenParameter.text)

section List

open WrittenParameter

variable {p : WrittenParameter} {ps : List WrittenParameter}

/-- Written parameters with commas between them are read one by one: each lies in a piece of its
own, and a bracket around them all has its partner behind them. -/
theorem cells_joinWith (docs : Documentation) : ∀ (p : WrittenParameter) (ps : List WrittenParameter)
    {s : Scan}, s.context = .code → (∀ q ∈ p :: ps, q.IsWritten) →
    (s.final (joinWith [','] ((p :: ps).map text))).context = .code ∧
      Neutral Cell.shown (s.cells (joinWith [','] ((p :: ps).map text))) ∧
      parametersOf docs (s.cells (joinWith [','] ((p :: ps).map text)))
        = (p :: ps).map (parameter docs)
  | p, [], s, hs, hps => by
    have hp := hps p (List.mem_cons_self ..)
    obtain ⟨hcells, hcontext⟩ := cells_text hp hs
    rw [List.map_singleton, List.map_singleton, joinWith, hcells]
    exact ⟨hcontext, neutral_cells hp, parametersOf_cells docs hp⟩
  | p, q :: ps, s, hs, hps => by
    have hp := hps p (List.mem_cons_self ..)
    have hcomma : IsMark ',' := by decide
    obtain ⟨hcells, hcontext⟩ := cells_text hp hs
    obtain ⟨hcode, hneutral, hparameters⟩ := cells_joinWith docs q ps (s := Scan.inLine) rfl
      fun r hr => hps r (List.mem_cons_of_mem _ hr)
    have hsplit : joinWith [','] ((p :: q :: ps).map text)
        = p.text ++ ',' :: joinWith [','] ((q :: ps).map text) := by
      rw [List.map_cons, List.map_cons, joinWith, List.append_assoc, List.singleton_append]
      exact List.cons_ne_nil _ _
    obtain ⟨happend, hfinal⟩ := Scan.append_of_apart (s := s) p.text
      (',' :: joinWith [','] ((q :: ps).map text)) (.inr (by simp))
    rw [hsplit, happend, hfinal, hcells, Scan.cells_mark hcomma hcontext, Scan.final_cons,
      Scan.step_of_mark hcomma hcontext]
    refine ⟨hcode, ?_, ?_⟩
    · have hneutral' : Neutral Cell.shown [⟨',', true⟩] :=
        neutral_of_nested (show nested Cell.shown [] [⟨',', true⟩] = true by decide)
      exact Neutral.append (neutral_cells hp) (Neutral.append hneutral' hneutral)
    · rw [parametersOf_append_cut docs (whole_cells hp).nesting (by decide),
        parametersOf_cells docs hp, hparameters]
      rfl

theorem cells_writtenList {blanks : List Char} (hblanks : ∀ c ∈ blanks, isBlank c = true)
    (hps : ∀ p ∈ ps, p.IsWritten) (docs : Documentation) :
    (Scan.inLine.final (writtenList blanks ps)).context = .code ∧
      Neutral Cell.shown (Scan.inLine.cells (writtenList blanks ps)) ∧
      parametersOf docs (Scan.inLine.cells (writtenList blanks ps)) = ps.map (parameter docs) := by
  cases ps with
  | nil =>
    obtain ⟨hcells, hcontext⟩ :=
      Scan.cells_of_isPlain (s := Scan.inLine) rfl (isPlain_of_isBlank hblanks)
    have hshown := isBlank_shown_plain hblanks
    rw [writtenList, hcells]
    exact ⟨hcontext, neutral_of_blank hshown, parametersOf_of_blank docs hshown⟩
  | cons p ps => exact cells_joinWith docs p ps (s := Scan.inLine) rfl hps

end List

/-- What a method's parameter list is in cells. -/
theorem exists_cells_of_rest {content : List Char} {m : ClientMethod}
    (hm : m ∈ methods (cells content))
    {list tail : List Char} (hrest : chars m.rest = '(' :: (list ++ ')' :: tail))
    (hlist : (Scan.inLine.final list).context = .code) :
    ∃ paren r, paren.shown = '(' ∧
      m.rest = paren :: (Scan.inLine.cells list ++ ⟨')', true⟩ :: r) := by
  obtain ⟨paren, r, after, hr, hparen, hcontent⟩ := exists_paren hm
  rw [hr, List.cons_append, cells] at hcontent
  obtain ⟨-, -, -, hcells⟩ := Scan.cells_at_mark hcontent (by decide) hparen
  rw [hr, chars_cons, List.cons.injEq] at hrest
  obtain ⟨a, y, rfl, ha, hy⟩ := List.map_eq_append_iff.1 hrest.2
  obtain ⟨close, b, rfl, hclose, -⟩ := List.map_eq_cons_iff.1 hy
  rw [List.append_assoc, List.cons_append] at hcells
  obtain ⟨ha', hclose'⟩ := Scan.split_cells hcells (by
    rw [chars_cons, hclose, List.head?_cons]
    decide)
  rw [show chars a = list from ha] at ha' hclose'
  rw [chars_cons, hclose, Scan.cells_mark (by decide) hlist] at hclose'
  rw [hr, ha', (List.cons.inj hclose').1]
  exact ⟨paren, b, hparen, rfl⟩

/-- A method with parameters written one after the other has these parameters. -/
theorem parameters_written (package : PackageName) (moduleName : String) {content : String}
    {m : ClientMethod} (hm : m ∈ methods (cells content.toList)) {blanks : List Char}
    (hblanks : ∀ c ∈ blanks, isBlank c = true) {ps : List WrittenParameter}
    (hps : ∀ p ∈ ps, p.IsWritten) {tail : List Char}
    (hrest : chars m.rest = '(' :: (writtenList blanks ps ++ ')' :: tail)) :
    ∃ f, m.function? = some f ∧ f.parameters = ps.map (WrittenParameter.parameter m.documentation) ∧
      ∃ c ∈ connectorsOfSource package moduleName .detailed content,
        c.withoutFunctions = m.connector package moduleName ∧ f ∈ c.functions := by
  obtain ⟨hcontext, hneutral, hparameters⟩ := cells_writtenList hblanks hps m.documentation
  obtain ⟨paren, r, hparen, hm'⟩ := exists_cells_of_rest hm hrest hcontext
  have henclosed : enclosed? Cell.shown
      (paren :: (Scan.inLine.cells (writtenList blanks ps) ++ ⟨')', true⟩ :: r)) = some (_, r) :=
    enclosed?_of_neutral (by rw [hparen]; rfl) hneutral r
  have hf := ClientMethod.function?_of_enclosed? (hm' ▸ henclosed)
  exact ⟨_, hf, hparameters, exists_connector hm hf⟩

/-- Commas stand in a type and in a default with a string, and the second name begins with a
quote. -/
theorem parameters_written_with_commas :
    let content := "public client class Client \x7b\n    # + to - Receivers\n"
      ++ "    remote function send("
      ++ "map<string, int[]> to, string 'order = join(\"a, b\", [1, 2])\n) \x7b\n    \x7d\n\x7d\n"
    ∃ m ∈ methods (cells content.toList), ∃ f, m.function? = some f ∧
      f.parameters = [⟨"to", "map<string, int[]>", false, some "Receivers"⟩,
        ⟨"'order", "string", true, none⟩] ∧
      ∃ c ∈ connectorsOfSource ⟨"org", "pack", "1.0.0"⟩ "pack" .detailed content,
        c.withoutFunctions = m.connector ⟨"org", "pack", "1.0.0"⟩ "pack" ∧ f ∈ c.functions := by
  intro content
  let receivers : WrittenParameter := ⟨[], "map<string, int[]>".toList, "to".toList, none, []⟩
  let order : WrittenParameter :=
    ⟨" ".toList, "string".toList, "'order".toList, some "join(\"a, b\", [1, 2])".toList,
      "\n".toList⟩
  have hmethods : (methods (cells content.toList)).map (fun m => (chars m.rest, m.documentation))
      = [('(' :: (writtenList [] [receivers, order] ++ ')' :: " \x7b\n    \x7d\n".toList),
        ⟨none, [("to", "Receivers")], none⟩)] := by decide +kernel
  obtain ⟨m, hm, hpair⟩ := List.map_eq_singleton_iff.1 hmethods
  obtain ⟨hrest, hdocs⟩ := Prod.mk.inj hpair
  have hreceivers : receivers.IsWritten :=
    ⟨nofun, by decide, by decide, by decide, by decide, by decide, by decide, nofun, nofun, nofun⟩
  have horder : order.IsWritten :=
    ⟨List.all_eq_true.1 (by decide), by decide, by decide, by decide, by decide, by decide,
      by decide, by rintro _ ⟨⟩; decide, by rintro _ ⟨⟩; decide, List.all_eq_true.1 (by decide)⟩
  have hmem : m ∈ methods (cells content.toList) := by rw [hm]; exact List.mem_singleton_self m
  obtain ⟨f, hf, hparameters, hc⟩ := parameters_written ⟨"org", "pack", "1.0.0"⟩ "pack" hmem
    (show ∀ c ∈ [], isBlank c = true from nofun)
    (show ∀ p ∈ [receivers, order], p.IsWritten by simpa using ⟨hreceivers, horder⟩) hrest
  refine ⟨m, hmem, f, hf, ?_, hc⟩
  rw [hparameters, hdocs]
  decide +kernel

end ConnectorCatalog
