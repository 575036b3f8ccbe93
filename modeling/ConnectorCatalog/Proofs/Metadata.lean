import ConnectorCatalog.Proofs.Composition
import ConnectorCatalog.Proofs.Leading

/-!
# Metadata of two sources in a row

What is written above a definition is looked for upwards, so it might be found in what comes before.
Where the first of two sources ends a definition, and not on lines that read as documentation or as an
annotation, nothing is: the connectors of both sources in a row are those of the first and those of the
second, documentation and annotations included (`connectors_append_documented`). Where it ends on such
lines it marks what follows (`annotated_line_marks_next`).
-/

namespace ConnectorCatalog

section

variable {package : PackageName} {moduleName : String} {detail : Detail} {s t : List Cell}

/-- A class is described alike with text behind. -/
theorem ofOccurrence?_extend (hnested : wellNested Cell.shown s = true) {o : Occurrence ClassHeader}
    (ho : o ∈ occurrences ClassHeader.read? s) (t : List Cell) :
    Connector.ofOccurrence? package moduleName detail (s ++ t) (o.extend t)
      = Connector.ofOccurrence? package moduleName detail s o := by
  obtain ⟨q, b, r, hsplit, hrest, hb⟩ := split_of_mem_occurrences ClassHeader.headerReader ho
  have hencloses := hnested
  rw [hsplit, ← List.append_assoc] at hencloses
  have hlead : (s ++ t).take ((s ++ t).length - (o.rest ++ t).length + 1)
      = s.take (s.length - o.rest.length + 1) := by
    have hlen : s.length = o.before.length + (q.length + (r.length + 1)) := by simp [hsplit]
    have hrest : o.rest.length = r.length + 1 := by simp [hrest]
    rw [List.length_append, List.length_append, Nat.add_sub_add_right,
      List.take_append_of_le_length (by omega)]
  unfold Connector.ofOccurrence?
  rw [Occurrence.extend, hlead, hrest, enclosed?_append_of_wellNested hencloses (by rw [hb]; rfl),
    Option.map_map]
  rfl

/-- The functions of a class body have the same documentation with text in front. -/
theorem functionsOf_append (hlead : ∀ b, Leading.ofBefore (s ++ b) = Leading.ofBefore b)
    (lead body : List Cell) : functionsOf (s ++ lead) body = functionsOf lead body := by
  unfold functionsOf ConnectorFunction.ofOccurrence?
  simp only [List.append_assoc, hlead]

/-- A class is described alike with text in front. -/
theorem ofOccurrence?_shift (hnested : wellNested Cell.shown s = true)
    (hlead : ∀ b, Leading.ofBefore (s ++ b) = Leading.ofBefore b) {o : Occurrence ClassHeader}
    (ho : o ∈ occurrences ClassHeader.read? t) :
    Connector.ofOccurrence? package moduleName detail (s ++ t) (o.shift s)
      = Connector.ofOccurrence? package moduleName detail t o := by
  obtain ⟨q, b, r, hsplit, hrest, -⟩ := split_of_mem_occurrences ClassHeader.headerReader ho
  have htake : (s ++ t).take ((s ++ t).length - o.rest.length + 1)
      = s ++ t.take (t.length - o.rest.length + 1) := by
    have hlen : t.length = o.before.length + (q.length + (r.length + 1)) := by simp [hsplit]
    have hrest : o.rest.length = r.length + 1 := by simp [hrest]
    rw [List.take_append, List.take_of_length_le (by simp; omega)]
    congr 2
    simp
    omega
  unfold Connector.ofOccurrence?
  simp only [Occurrence.shift, htake, hlead, functionsOf_append hlead, nesting_append,
    nesting_of_wellNested hnested, Int.zero_add]

end

/-- A text in which a stop in code is the last character, blanks apart, has a stop last. -/
theorem endsStopped_of_getLast? {s : List Cell} {c : Char} (hc : isStop c = true)
    (h : (s.filter fun x => !isBlank x.char).getLast? = some ⟨c, true⟩) : EndsStopped s := by
  obtain ⟨kept, hkept⟩ := List.getLast?_eq_some_iff.1 h
  obtain ⟨a, a', rfl, -, ha'⟩ := List.filter_eq_append_iff.1 hkept
  obtain ⟨u, b, rfl, -, -, hb⟩ := List.filter_eq_cons_iff.1 ha'
  refine ⟨a ++ u, ⟨c, true⟩, b, by simp, hc, fun x hx => ?_⟩
  have hblank : isBlank x.char = true := by simpa using List.filter_eq_nil_iff.1 hb x hx
  rw [Cell.isBlankCode, Cell.shown]
  split
  · exact hblank
  · rfl

/-- Where the first of two sources ends its last line in code, has well nested brackets and a closing
brace or a semicolon in code last, and does not end in lines that read as documentation or as an
annotation, the connectors of both in a row are those of the first and those of the second, with all
that is written about them and their functions. -/
theorem connectors_append_documented (p : Project) (m : Module) (d : Document) {D₁ D₂ : String}
    (hnewline : D₁.toList.getLast? = some '\n')
    (hcode : (Scan.start.final D₁.toList).context = .code)
    (hnested : wellNested id (mask D₁).toList = true)
    (hend : ((cells D₁.toList).filter fun x => !isBlank x.char).getLast? = some ⟨'\x7d', true⟩ ∨
      ((cells D₁.toList).filter fun x => !isBlank x.char).getLast? = some ⟨';', true⟩)
    (hmetadata : ¬ Leading.EndsInMetadata (linesOf (cells D₁.toList))) (detail : Detail) :
    (p.ofContent m d (D₁ ++ D₂)).connectors detail
      = (p.ofContent m d D₁).connectors detail ++ (p.ofContent m d D₂).connectors detail := by
  have hstop : EndsStopped (cells D₁.toList) := by
    rcases hend with h | h
    · exact endsStopped_of_getLast? rfl h
    · exact endsStopped_of_getLast? rfl h
  rw [mask, String.toList_ofList] at hnested
  have hwell : wellNested Cell.shown (cells D₁.toList) = true := by
    rwa [wellNested, ← spread_masked.wellNestedFrom_flatMap]
  have hlead : ∀ b, Leading.ofBefore (cells D₁.toList ++ b) = Leading.ofBefore b := by
    intro b
    have hlast : (chars (cells D₁.toList)).getLast? = some '\n' := by rw [chars_cells, hnewline]
    rw [chars, List.getLast?_map, Option.map_eq_some_iff] at hlast
    obtain ⟨x, hx, hbreak⟩ := hlast
    obtain ⟨s, hs⟩ := List.getLast?_eq_some_iff.1 hx
    rw [hs] at hwell hmetadata ⊢
    exact Leading.ofBefore_append hbreak hwell hmetadata b
  simp only [connectors_ofContent, connectorsOfSource]
  rw [String.toList_append, cells_append_of_newline hnewline hcode,
    classes_append hstop (atWordStart_of_newline hnewline), List.filterMap_append,
    List.filterMap_map, List.filterMap_map]
  refine congrArg₂ _ (List.filterMap_congr fun o ho => ?_) (List.filterMap_congr fun o ho => ?_)
  · rw [Function.comp_apply, ofOccurrence?_extend hwell ho]
  · rw [Function.comp_apply, ofOccurrence?_shift hwell hlead ho]

/-- A client with an annotation above it, in front of one with documentation. -/
theorem connectors_append_documented_two_clients :
    let p : Project := ⟨.build, "", ⟨"org", "pack", "1.0.0"⟩, []⟩
    let connectors := fun content =>
      (p.ofContent ⟨"pack", []⟩ ⟨"main.bal", "main.bal", ""⟩ content).connectors .detailed
    let D₁ := "@display \x7blabel: \"Web\"\x7d\npublic client class A \x7b\n\x7d\n"
    let D₂ := "# B\npublic client class B \x7b\x7d"
    ¬ Leading.EndsInMetadata (linesOf (cells D₁.toList)) ∧
      connectors (D₁ ++ D₂) = connectors D₁ ++ connectors D₂ := by
  intro p connectors D₁ D₂
  have hmetadata : ¬ Leading.EndsInMetadata (linesOf (cells D₁.toList)) := by decide +kernel
  refine ⟨hmetadata, connectors_append_documented _ _ _ (by decide +kernel) (by decide +kernel) ?_
    (.inl (by decide +kernel))
    hmetadata _⟩
  rw [mask, String.toList_ofList]
  decide +kernel

/-- A client whose annotation stands on its own line, and with it the end of its body: the annotation
is read as one of the next client too. -/
theorem annotated_line_marks_next :
    let p : Project := ⟨.build, "", ⟨"org", "pack", "1.0.0"⟩, []⟩
    let connectors := fun content =>
      (p.ofContent ⟨"pack", []⟩ ⟨"main.bal", "main.bal", ""⟩ content).connectors .detailed
    let D₁ := "@display \x7blabel: \"Web\"\x7d public client class A \x7b\x7d\n"
    let D₂ := "public client class B \x7b\x7d\n"
    D₁.toList.getLast? = some '\n' ∧
      (Scan.start.final D₁.toList).context = .code ∧
      wellNested id (mask D₁).toList = true ∧
      ((cells D₁.toList).filter fun x => !isBlank x.char).getLast? = some ⟨'\x7d', true⟩ ∧
      (connectors D₂).map (·.displayName) = ["B"] ∧
      (connectors (D₁ ++ D₂)).map (·.displayName) = ["A", "Web"] := by
  refine ⟨by decide +kernel, by decide +kernel, ?_, by decide +kernel, by decide +kernel,
    by decide +kernel⟩
  rw [mask, String.toList_ofList]
  decide +kernel

end ConnectorCatalog
