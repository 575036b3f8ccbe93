import ConnectorCatalog.Proofs.Concat
import ConnectorCatalog.Proofs.Nested
import ConnectorCatalog.Proofs.Scan
import Mathlib.Data.List.Basic

/-!
# Connectors of two sources in a row

Where the first of two sources ends with a line break in code, has well nested brackets and a closing
brace or a semicolon last, the connectors of both in a row are those of the first and then those of
the second, but for what is read from documentation and annotations (`connectors_append`). Masking,
headers, nesting and partners on each side of the seam take nothing from the other side.
-/

namespace ConnectorCatalog

/-- A parameter without its documentation. -/
def Parameter.bare (p : Parameter) : Parameter := { p with documentation := none }

/-- A function without what documentation says about it. -/
def ConnectorFunction.bare (f : ConnectorFunction) : ConnectorFunction :=
  { f with
    documentation := none
    parameters := f.parameters.map Parameter.bare
    returnType := f.returnType.map fun r => { r with documentation := none } }

/-- A connector without what documentation and annotations say about it. -/
def Connector.bare (c : Connector) : Connector :=
  { c with
    displayName := c.name
    documentation := none
    displayAnnotation := none
    functions := c.functions.map ConnectorFunction.bare }

/-- A connector without its functions. -/
def Connector.withoutFunctions (c : Connector) : Connector := { c with functions := [] }

/-- The project `p` with a single module `m` that holds a single document `d` with some content. -/
def Project.ofContent (p : Project) (m : Module) (d : Document) (content : String) : Project :=
  { p with modules := [{ m with documents := [{ d with content }] }] }

theorem connectors_ofContent (p : Project) (m : Module) (d : Document) (content : String)
    (detail : Detail) : (p.ofContent m d content).connectors detail
      = connectorsOfSource p.package m.name detail content := by
  rw [Project.connectors, Project.documents, Project.ofContent]
  simp

/-- Documentation names no parameter and gives none a type. -/
theorem bare_parametersOf (docs docs' : Documentation) (s : List Cell) :
    (parametersOf docs s).map Parameter.bare = (parametersOf docs' s).map Parameter.bare := by
  rw [parametersOf, parametersOf, List.map_filterMap, List.map_filterMap]
  refine congrArg (List.filterMap · _) (funext fun piece => ?_)
  unfold Parameter.ofCells?
  split
  · rfl
  · rw [Option.map_map, Option.map_map]
    rfl

/-- What stands before a class body matters for documentation alone. -/
theorem bare_functionsOf (lead lead' body : List Cell) :
    (functionsOf lead body).map ConnectorFunction.bare
      = (functionsOf lead' body).map ConnectorFunction.bare := by
  rw [functionsOf, functionsOf, List.map_filterMap, List.map_filterMap]
  refine congrArg (List.filterMap · _) (funext fun o => ?_)
  unfold ConnectorFunction.ofOccurrence?
  split
  · rw [Option.map_map, Option.map_map]
    refine congrArg (Option.map · _) (funext fun p => ?_)
    have hparameters := fun docs docs' => bare_parametersOf docs docs' p.1
    simp only [Function.comp_apply, ConnectorFunction.bare, Option.map_map]
    rw [hparameters]
    rfl
  · rfl

variable {package : PackageName} {moduleName : String} {detail : Detail}

/-- A bare connector depends on the nesting before its header, the header and the class body. -/
theorem bare_ofOccurrence? {source source' : List Cell} {o o' : Occurrence ClassHeader}
    (hnesting : nesting Cell.shown o.before = nesting Cell.shown o'.before)
    (hheader : o.header = o'.header)
    (hbody : (enclosed? Cell.shown o.rest).map Prod.fst = (enclosed? Cell.shown o'.rest).map Prod.fst) :
    (Connector.ofOccurrence? package moduleName detail source o).map Connector.bare
      = (Connector.ofOccurrence? package moduleName detail source' o').map Connector.bare := by
  unfold Connector.ofOccurrence?
  rw [hnesting, hheader]
  split
  · cases ho : enclosed? Cell.shown o.rest with
    | none =>
      rw [ho, eq_comm, Option.map_none, Option.map_eq_none_iff] at hbody
      rw [hbody]
      rfl
    | some p =>
      rw [ho, eq_comm, Option.map_some, Option.map_eq_some_iff] at hbody
      obtain ⟨⟨body, after⟩, hp', rfl⟩ := hbody
      rw [hp', Option.map_some, Option.map_some, Option.map_some, Option.map_some, Option.some_inj]
      cases detail with
      | summary => rfl
      | detailed =>
        simp only [Connector.bare]
        rw [bare_functionsOf]
  · rfl

/-- The connectors found in some cells, bare. -/
theorem map_bare_connectorsOfSource (content : String) :
    (connectorsOfSource package moduleName detail content).map Connector.bare
      = (occurrences ClassHeader.read? (cells content.toList)).filterMap fun o =>
        (Connector.ofOccurrence? package moduleName detail [] o).map Connector.bare := by
  rw [connectorsOfSource, List.map_filterMap]
  exact congrArg (List.filterMap · _) (funext fun o => bare_ofOccurrence? rfl rfl rfl)

/-- A summary is a detailed description without functions. -/
theorem connectorsOfSource_summary (content : String) :
    connectorsOfSource package moduleName .summary content
      = (connectorsOfSource package moduleName .detailed content).map
        Connector.withoutFunctions := by
  rw [connectorsOfSource, connectorsOfSource, List.map_filterMap]
  refine congrArg (List.filterMap · _) (funext fun o => ?_)
  unfold Connector.ofOccurrence?
  split
  · rw [Option.map_map]
    rfl
  · rfl

theorem Scan.atLineStart_final : ∀ {t : List Char} {s : Scan}, t.getLast? = some '\n' →
    (s.final t).atLineStart = true
  | [], s, h => by cases h
  | [c], s, h => by
    rw [List.getLast?_singleton, Option.some_inj] at h
    subst h
    rfl
  | c :: d :: t, s, h => by
    rw [List.getLast?_cons_cons] at h
    rw [final_cons]
    exact atLineStart_final h

/-- After a line break in code the scanner begins anew. -/
theorem cells_append_of_newline {a : List Char} (hnewline : a.getLast? = some '\n')
    (hcode : (Scan.start.final a).context = .code) (b : List Char) :
    cells (a ++ b) = cells a ++ cells b := by
  have hfinal : Scan.start.final a = Scan.start := by
    obtain hstart := Scan.atLineStart_final (s := Scan.start) hnewline
    generalize Scan.start.final a = s at hcode hstart
    obtain ⟨context, atLineStart⟩ := s
    subst hcode hstart
    rfl
  rw [cells, Scan.cells_append a b (.inr (by rw [hnewline]; decide)), hfinal]
  rfl

/-- A word may begin after a line break. -/
theorem atWordStart_of_newline {a : List Char} (hnewline : a.getLast? = some '\n') :
    atWordStart (cells a).reverse = true := by
  cases h : (cells a).reverse with
  | nil => rfl
  | cons x r =>
    have ha : (chars (cells a)).getLast? = some x.char := by
      rw [chars, List.getLast?_map, ← List.head?_reverse, h]
      rfl
    rw [chars_cells, hnewline, Option.some_inj] at ha
    have hmem : x ∈ cells a := by
      rw [← List.mem_reverse, h]
      exact List.mem_cons_self ..
    have hshown : x.shown = '\n' := by
      rw [Cell.shown, Scan.newline_isCode _ _ x hmem ha.symm, ← ha]
      rfl
    rw [atWordStart, hshown]
    decide

/-- A masked text that has a stop last, blanks apart, is that of cells with a stop last. -/
theorem endsStopped_of_masked {s : List Cell} {c : Char}
    (h : (trimEnd (masked s)).getLast? = some c) (hc : isStop c = true) : EndsStopped s := by
  induction hn : s.reverse generalizing s with
  | nil =>
    rw [List.reverse_eq_nil_iff] at hn
    subst hn
    cases h
  | cons x r ih =>
    have hs : s = r.reverse ++ [x] := by rw [← List.reverse_reverse s, hn, List.reverse_cons]
    subst hs
    have hmasked : masked (r.reverse ++ [x]) = masked r.reverse ++ x.masked := by
      rw [masked_append, masked, masked, List.flatMap_singleton]
    cases hx : x.isBlankCode with
    | true =>
      have hblank : ∀ y ∈ x.masked, isBlank y = true := fun y hy => Cell.isBlank_of_mem_masked hx hy
      rw [hmasked, trimEnd, dropEndWhile, List.reverse_append,
        List.dropWhile_append_of_pos (by simpa using hblank)] at h
      obtain ⟨u, e, b, hu, he, hb⟩ := ih h (by rw [List.reverse_reverse])
      refine ⟨u, e, b ++ [x], by rw [hu]; simp, he, fun y hy => ?_⟩
      rcases List.mem_append.1 hy with hy | hy
      · exact hb y hy
      · rwa [List.mem_singleton.1 hy]
    | false =>
      rw [hmasked, Cell.masked_of_not_blank hx, trimEnd, dropEndWhile, List.reverse_append,
        List.reverse_singleton, List.singleton_append, List.dropWhile_cons,
        if_neg (by rw [← Cell.isBlankCode, hx]; decide), List.getLast?_reverse, List.head?_cons,
        Option.some_inj] at h
      exact ⟨r.reverse, x, [], rfl, h ▸ hc, fun y hy => absurd hy List.not_mem_nil⟩

/-- The connectors of two sources in a row are those of the first, followed by those of the second,
but for documentation and annotations; and a summary leaves out the functions only. -/
theorem connectors_append (p : Project) (m : Module) (d : Document) {D₁ D₂ : String}
    (hnewline : D₁.toList.getLast? = some '\n')
    (hcode : (Scan.start.final D₁.toList).context = .code)
    (hnested : wellNested id (mask D₁).toList = true)
    (hend : (trimEnd (mask D₁).toList).getLast? = some '\x7d' ∨
      (trimEnd (mask D₁).toList).getLast? = some ';') :
    (∀ detail, ((p.ofContent m d (D₁ ++ D₂)).connectors detail).map Connector.bare
      = ((p.ofContent m d D₁).connectors detail).map Connector.bare
        ++ ((p.ofContent m d D₂).connectors detail).map Connector.bare) ∧
    (p.ofContent m d (D₁ ++ D₂)).connectors .summary
      = ((p.ofContent m d (D₁ ++ D₂)).connectors .detailed).map Connector.withoutFunctions := by
  simp only [connectors_ofContent]
  refine ⟨fun detail => ?_, connectorsOfSource_summary _⟩
  rw [mask, String.toList_ofList] at hnested hend
  have hstop : EndsStopped (cells D₁.toList) := by
    rcases hend with h | h
    · exact endsStopped_of_masked h rfl
    · exact endsStopped_of_masked h rfl
  have hwell : wellNested Cell.shown (cells D₁.toList) = true := by
    rwa [wellNested, ← spread_masked.wellNestedFrom_flatMap]
  rw [map_bare_connectorsOfSource, map_bare_connectorsOfSource, map_bare_connectorsOfSource,
    String.toList_append, cells_append_of_newline hnewline hcode,
    classes_append hstop (atWordStart_of_newline hnewline), List.filterMap_append,
    List.filterMap_map, List.filterMap_map]
  congr 1
  · refine List.filterMap_congr fun o ho => bare_ofOccurrence? rfl rfl ?_
    obtain ⟨q, b, r, hsplit, hrest, hb⟩ := split_of_mem_occurrences ClassHeader.headerReader ho
    rw [hsplit, ← List.append_assoc] at hwell
    rw [Occurrence.extend, hrest, enclosed?_append_of_wellNested hwell (by rw [hb]; rfl),
      Option.map_map]
    rfl
  · refine congrArg (List.filterMap · _) (funext fun o => bare_ofOccurrence? ?_ rfl rfl)
    rw [Occurrence.shift, nesting_append, nesting_of_wellNested hwell, Int.zero_add]

/-- A client in front of another one. -/
theorem connectors_append_two_clients :
    let p : Project := ⟨.build, "", ⟨"org", "pack", "1.0.0"⟩, []⟩
    let connectors := fun content detail =>
      (p.ofContent ⟨"pack", []⟩ ⟨"main.bal", "main.bal", ""⟩ content).connectors detail
    (∀ detail, (connectors ("public client class A \x7b\n\x7d\n"
          ++ "# B\npublic client class B \x7b\x7d") detail).map Connector.bare
      = (connectors "public client class A \x7b\n\x7d\n" detail).map Connector.bare
        ++ (connectors "# B\npublic client class B \x7b\x7d" detail).map Connector.bare) ∧
    connectors ("public client class A \x7b\n\x7d\n" ++ "# B\npublic client class B \x7b\x7d") .summary
      = (connectors ("public client class A \x7b\n\x7d\n" ++ "# B\npublic client class B \x7b\x7d")
          .detailed).map Connector.withoutFunctions := by
  refine connectors_append _ _ _ (by decide) (by decide) ?_ (.inl ?_)
  · rw [mask, String.toList_ofList]
    decide
  · rw [mask, String.toList_ofList]
    decide

end ConnectorCatalog
