import ConnectorCatalog.Proofs.Ahead
import ConnectorCatalog.Proofs.Composition
import ConnectorCatalog.Proofs.Neutral
import ConnectorCatalog.Proofs.Pieces
import ConnectorCatalog.Proofs.Segment

/-!
# Members of a class in a row

A member ends in a closing brace or a semicolon, past which no header goes, and has well nested
brackets. So the headers in a class body are those of its members, one member after the other, and
what is said of the functions apart from documentation and return types depends
on the member alone that they stand in (`signatures_members`).
-/

namespace ConnectorCatalog

/-- What a function is called with: its name and path, its qualifiers and its parameters without
documentation. -/
def ConnectorFunction.signature (f : ConnectorFunction) :
    String × Option String × List String × List Parameter :=
  (f.name, f.resourcePath, f.qualifiers, f.parameters.map Parameter.bare)

/-- A member of a class, as it is written from the end of the one before it: it ends in code, with a
closing brace or a semicolon, and its brackets are well nested. -/
structure IsMember (m : List Char) : Prop where
  stop : m.getLast? = some '\x7d' ∨ m.getLast? = some ';'
  code : (Scan.inLine.final m.dropLast).context = .code
  nested : wellNested Cell.shown (Scan.inLine.cells m) = true

instance (m : List Char) : Decidable (IsMember m) :=
  decidable_of_iff ((m.getLast? = some '\x7d' ∨ m.getLast? = some ';') ∧
      (Scan.inLine.final m.dropLast).context = .code ∧
      wellNested Cell.shown (Scan.inLine.cells m) = true)
    ⟨fun ⟨h₁, h₂, h₃⟩ => ⟨h₁, h₂, h₃⟩, fun ⟨h₁, h₂, h₃⟩ => ⟨h₁, h₂, h₃⟩⟩

/-- A text behind the last member of a class: blanks, comments and documentation. -/
structure IsRemainder (t : List Char) : Prop where
  blank : ∀ x ∈ Scan.inLine.cells t, x.isBlankCode = true
  code : (Scan.inLine.final t).context = .code

instance (t : List Char) : Decidable (IsRemainder t) :=
  have := List.decidableBAll (fun x : Cell => x.isBlankCode = true) (Scan.inLine.cells t)
  decidable_of_iff ((∀ x ∈ Scan.inLine.cells t, x.isBlankCode = true) ∧
      (Scan.inLine.final t).context = .code)
    ⟨fun ⟨h₁, h₂⟩ => ⟨h₁, h₂⟩, fun ⟨h₁, h₂⟩ => ⟨h₁, h₂⟩⟩

section Cells

variable {m : List Char} (hm : IsMember m)

include hm

/-- A member ends in a mark, so it has its own cells whatever follows it. -/
theorem exists_cells_member : ∃ s x, Scan.inLine.cells m = s ++ [x] ∧
    (x.shown = '\x7d' ∨ x.shown = ';') ∧
    ∀ t, Scan.inLine.cells (m ++ t) = s ++ x :: Scan.inLine.cells t ∧
      Scan.inLine.final (m ++ t) = Scan.inLine.final t := by
  obtain ⟨c, hc, hlast⟩ : ∃ c, (c = '\x7d' ∨ c = ';') ∧ m.getLast? = some c :=
    hm.stop.elim (fun h => ⟨_, .inl rfl, h⟩) fun h => ⟨_, .inr rfl, h⟩
  have hmark : IsMark c := by rcases hc with rfl | rfl <;> decide
  obtain ⟨s, rfl⟩ := List.getLast?_eq_some_iff.1 hlast
  have hcode := hm.code
  rw [List.dropLast_concat] at hcode
  have hsplit := fun t => Scan.append_mark hmark hcode t
  refine ⟨Scan.inLine.cells s, ⟨c, true⟩, (hsplit []).1, hc, fun t => ?_⟩
  rw [List.append_assoc, List.singleton_append]
  exact hsplit t

end Cells

section Methods

theorem isStop_of_end {x : Cell} (hx : x.shown = '\x7d' ∨ x.shown = ';') :
    isStop x.shown = true := by
  rcases hx with h | h <;> rw [h] <;> rfl

/-- Nothing but blanks has no method. -/
theorem methods_of_blank {s : List Cell} (hs : ∀ x ∈ s, x.isBlankCode = true) :
    occurrences MethodHeader.read? s = [] := by
  have hscanned : Scanned MethodHeader.read? [] (s ++ []) [] :=
    Scanned.pass_blanks MethodHeader.headerReader hs (.done _)
  rw [List.append_nil] at hscanned
  exact hscanned.eq.symm

theorem signature_congr {lead lead' : List Cell} {o o' : Occurrence MethodHeader}
    (hnesting : nesting Cell.shown o.before = nesting Cell.shown o'.before)
    (hheader : o.header = o'.header)
    (hlist : (enclosed? Cell.shown o.rest).map Prod.fst
      = (enclosed? Cell.shown o'.rest).map Prod.fst) :
    (ConnectorFunction.ofOccurrence? lead o).map ConnectorFunction.signature
      = (ConnectorFunction.ofOccurrence? lead' o').map ConnectorFunction.signature := by
  have hdescribe : ∀ (lead : List Cell) (o : Occurrence MethodHeader),
      (ConnectorFunction.ofOccurrence? lead o).map ConnectorFunction.signature
        = if nesting Cell.shown o.before = 0 ∧ o.header.isCallable then
            ((enclosed? Cell.shown o.rest).map Prod.fst).map fun list =>
              (o.header.nameAndPath.1, o.header.nameAndPath.2, o.header.qualifiers,
                (parametersOf ⟨none, [], none⟩ list).map Parameter.bare)
          else none := by
    intro lead o
    unfold ConnectorFunction.ofOccurrence?
    split
    · rw [Option.map_map, Option.map_map]
      refine congrArg (Option.map · _) (funext fun p => ?_)
      simp only [Function.comp_apply, ConnectorFunction.signature]
      rw [bare_parametersOf _ ⟨none, [], none⟩]
    · rfl
  rw [hdescribe, hdescribe, hnesting, hheader, hlist]

/-- The functions in a text with well nested brackets, and then those in the text behind it. -/
theorem signatures_append {s t : List Cell} {x : Cell} (hx : x.shown = '\x7d' ∨ x.shown = ';')
    (hnested : wellNested Cell.shown (s ++ [x]) = true) (lead lead' : List Cell) :
    (functionsOf lead (s ++ x :: t)).map ConnectorFunction.signature
      = (functionsOf lead' (s ++ [x])).map ConnectorFunction.signature
        ++ (functionsOf lead' t).map ConnectorFunction.signature := by
  simp only [functionsOf, List.map_filterMap]
  rw [MethodHeader.stoppedReader.occurrences_append (isStop_of_end hx), List.filterMap_append,
    List.filterMap_map, List.filterMap_map]
  refine congrArg₂ _ (List.filterMap_congr fun o ho => signature_congr rfl rfl ?_)
    (List.filterMap_congr fun o _ => signature_congr ?_ rfl rfl)
  · obtain ⟨q, b, r, hsplit, hrest, hb⟩ := split_of_mem_occurrences MethodHeader.headerReader ho
    rw [hsplit, ← List.append_assoc] at hnested
    rw [Occurrence.extend, hrest, enclosed?_append_of_wellNested hnested (by rw [hb]; rfl),
      Option.map_map]
    rfl
  · rw [Occurrence.shift, nesting_append, nesting_of_wellNested hnested, Int.zero_add]

end Methods

section Members

variable {ms : List (List Char)} {t : List Char} (hms : ∀ m ∈ ms, IsMember m) (ht : IsRemainder t)

include hms ht

/-- Of the functions of a class each is described as the member alone describes it. -/
theorem signatures_members (lead : List Cell) :
    (functionsOf lead (Scan.inLine.cells (ms.flatten ++ t))).map ConnectorFunction.signature
      = ms.flatMap fun m =>
        (functionsOf [] (Scan.inLine.cells m)).map ConnectorFunction.signature := by
  induction ms generalizing lead with
  | nil =>
    rw [functionsOf, List.flatten_nil, List.nil_append, methods_of_blank ht.blank]
    rfl
  | cons m ms ih =>
    rw [List.forall_mem_cons] at hms
    obtain ⟨s, x, hcells, hx, hsplit⟩ := exists_cells_member hms.1
    have hnested := hms.1.nested
    rw [hcells] at hnested
    rw [List.flatten_cons, List.append_assoc, (hsplit _).1, signatures_append hx hnested lead [],
      ih hms.2, List.flatMap_cons, hcells]

/-- The brace around members has its partner behind them, where the scanner is in code. -/
theorem neutral_members : Neutral Cell.shown (Scan.inLine.cells (ms.flatten ++ t)) ∧
    (Scan.inLine.final (ms.flatten ++ t)).context = .code := by
  induction ms with
  | nil =>
    rw [List.flatten_nil, List.nil_append]
    exact ⟨neutral_of_blank ht.blank, ht.code⟩
  | cons m ms ih =>
    rw [List.forall_mem_cons] at hms
    obtain ⟨s, x, hcells, hx, hsplit⟩ := exists_cells_member hms.1
    have hnested := neutral_of_wellNested hms.1.nested
    obtain ⟨hneutral, hcode⟩ := ih hms.2
    rw [List.flatten_cons, List.append_assoc, (hsplit _).1, (hsplit _).2, ← List.singleton_append,
      ← List.append_assoc, ← hcells]
    exact ⟨hnested.append hneutral, hcode⟩

/-- A header that is reported begins in a member, where all brackets of it are closed. -/
theorem exists_member {o : Occurrence MethodHeader}
    (ho : o ∈ occurrences MethodHeader.read? (Scan.inLine.cells (ms.flatten ++ t)))
    (htop : nesting Cell.shown o.before = 0) :
    ∃ pre m post u r, ms = pre ++ m :: post ∧ o.before = Scan.inLine.cells pre.flatten ++ u ∧
      ⟨u, o.header, r⟩ ∈ occurrences MethodHeader.read? (Scan.inLine.cells m) ∧
      wellNested Cell.shown u = true := by
  induction ms generalizing o with
  | nil =>
    rw [List.flatten_nil, List.nil_append, methods_of_blank ht.blank] at ho
    cases ho
  | cons m ms ih =>
    rw [List.forall_mem_cons] at hms
    obtain ⟨s, x, hcells, hx, hsplit⟩ := exists_cells_member hms.1
    have hnested := hms.1.nested
    rw [List.flatten_cons, List.append_assoc, (hsplit _).1,
      MethodHeader.stoppedReader.occurrences_append (isStop_of_end hx), ← hcells] at ho
    rcases List.mem_append.1 ho with ho | ho
    · obtain ⟨o, hmem, rfl⟩ := List.mem_map.1 ho
      obtain ⟨q, b, r, hm, -⟩ := split_of_mem_occurrences MethodHeader.headerReader hmem
      rw [hm] at hnested
      exact ⟨[], m, ms, o.before, o.rest, rfl, rfl, hmem, wellNested_of_nesting hnested htop⟩
    · obtain ⟨o, hmem, rfl⟩ := List.mem_map.1 ho
      rw [Occurrence.shift, nesting_append, nesting_of_wellNested hnested, Int.zero_add] at htop
      obtain ⟨pre, m', post, u, r, rfl, hbefore, hu⟩ := ih hms.2 hmem htop
      refine ⟨m :: pre, m', post, u, r, rfl, ?_, hu⟩
      rw [Occurrence.shift, hbefore, List.flatten_cons, (hsplit _).1, hcells]
      simp

end Members

end ConnectorCatalog
