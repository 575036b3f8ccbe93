import ConnectorCatalog.Proofs.Leading
import ConnectorCatalog.Proofs.Trim
import ConnectorCatalog.Source.Offset
import Mathlib.Data.List.Forall2

/-!
# Metadata is read back as it was written

Documentation lines, blank lines and annotations may stand above a definition in any number and
order (`Item`). Whether lines are an annotation is seen in the masked text, where braces in comments
and literals do not count. The walk up from the definition takes one item after the other
(`above_item`), so it finds the documentation texts and the annotation lines, all of them and top to
bottom (`leadingAt_written`).
-/

namespace ConnectorCatalog.Leading

open Offset (bracesOf bracesOf_masked width width_append)

/-- Something that may stand above a definition, as it is written. -/
inductive Item
  | documentation (indent text : List Char)
  | blank (line : List Char)
  | annotated (lines : List (List Char))
deriving DecidableEq, Repr

namespace Item

/-- The lines that an item takes. -/
def lines : Item → List (List Char)
  | documentation indent text => [indent ++ '#' :: ' ' :: text]
  | blank line => [line]
  | annotated lines => lines

/-- The text of a documentation line. -/
def text? : Item → Option (List Char)
  | documentation _ text => some text
  | _ => none

/-- The lines of an annotation. -/
def annotationLines : Item → List (List Char)
  | annotated lines => lines
  | _ => []

/-- An item is written as its kind demands, where `shown` holds its lines as the masked text has
them: an annotation begins with `@` and does not end in a line that is blank or documentation, and
its braces balance over all lines and over no smaller number of last lines. -/
def IsWritten (shown : List (List Char)) : Item → Prop
  | documentation indent text =>
    (∀ c ∈ indent, isBlank c = true) ∧ trimEnd text = text ∧ '\n' ∉ indent ++ text
  | blank line => (∀ c ∈ line, isBlank c = true) ∧ '\n' ∉ line
  | annotated lines =>
    (∃ first ∈ lines.head?, (trimStart first).head? = some '@') ∧
      (∀ last ∈ lines.getLast?, trim last ≠ [] ∧ (trim last).head? ≠ some '#') ∧
      (∀ line ∈ lines, '\n' ∉ line) ∧
      bracesOf shown.flatten = 0 ∧
      ∀ n < shown.length, 0 < n → 0 < bracesOf (shown.drop n).flatten

instance (shown : List (List Char)) : ∀ i : Item, Decidable (i.IsWritten shown)
  | documentation indent text =>
    have := List.decidableBAll (fun c => isBlank c = true) indent
    inferInstanceAs (Decidable (_ ∧ trimEnd text = text ∧ '\n' ∉ indent ++ text))
  | blank line =>
    have := List.decidableBAll (fun c => isBlank c = true) line
    inferInstanceAs (Decidable (_ ∧ '\n' ∉ line))
  | annotated lines =>
    have := List.decidableBAll (fun line => '\n' ∉ line) lines
    inferInstanceAs (Decidable (_ ∧ _ ∧ _ ∧ bracesOf shown.flatten = 0 ∧ _))

end Item

/-- Items are written one after the other, where `shown` holds the lines of the masked text from the
first item on. -/
def AreWritten : List (List Char) → List Item → Prop
  | _, [] => True
  | shown, i :: items =>
    i.IsWritten (shown.take i.lines.length) ∧ AreWritten (shown.drop i.lines.length) items

instance decidableAreWritten : ∀ (shown : List (List Char)) (items : List Item),
    Decidable (AreWritten shown items)
  | _, [] => .isTrue trivial
  | shown, i :: items =>
    have := decidableAreWritten (shown.drop i.lines.length) items
    inferInstanceAs (Decidable (i.IsWritten _ ∧ AreWritten _ items))

/-- Lines, each with the line break after it. -/
def ended (lines : List (List Char)) : List Char := lines.flatMap (· ++ ['\n'])

/-- The text of some items. -/
def written (items : List Item) : List Char := ended (items.flatMap Item.lines)

/-- The lines `block` of cells hold an item. -/
def Holds (i : Item) (block : List (List Cell)) : Prop :=
  block.map chars = i.lines ∧ i.IsWritten (block.map masked)

theorem newline_of_isWritten {i : Item} {shown : List (List Char)} (h : i.IsWritten shown) :
    ∀ line ∈ i.lines, '\n' ∉ line := by
  cases i with
  | documentation indent text =>
    intro line hline
    rw [Item.lines, List.mem_singleton] at hline
    simpa [hline] using h.2.2
  | blank line =>
    intro line' hline
    rw [Item.lines, List.mem_singleton] at hline
    exact hline ▸ h.2
  | annotated lines => exact h.2.2.1

section Lines

/-- Lines at the beginning of a text are lines of its cells, whatever follows. -/
theorem exists_block : ∀ {lines : List (List Char)} {s : List Cell} {rest : List Char},
    chars s = ended lines ++ rest → (∀ line ∈ lines, '\n' ∉ line) →
    ∃ block a tail, s = a ++ tail ∧ chars tail = rest ∧ block.map chars = lines ∧
      ∀ t, linesOf (a ++ t) = block ++ linesOf t
  | [], s, rest, hs, _ => ⟨[], [], s, rfl, hs, rfl, fun t => rfl⟩
  | line :: lines, s, rest, hs, hlines => by
    have hsplit : chars s = line ++ ('\n' :: (ended lines ++ rest)) := by
      rw [hs, ended, List.flatMap_cons, ended]
      simp
    obtain ⟨first, s', rfl, hfirst, hs'⟩ := List.map_eq_append_iff.1 hsplit
    obtain ⟨x, s', rfl, hx, hs'⟩ := List.map_eq_cons_iff.1 hs'
    obtain ⟨block, a, tail, rfl, htail, hblock, hcut⟩ :=
      exists_block hs' fun l hl => hlines l (List.mem_cons_of_mem _ hl)
    have hnone : ∀ y ∈ first, (y.char == '\n') = false := by
      intro y hy
      have hmem : y.char ∈ line := hfirst ▸ List.mem_map_of_mem hy
      refine beq_false_of_ne fun he => hlines line (List.mem_cons_self ..) (he ▸ hmem)
    refine ⟨first :: block, first ++ x :: a, tail, by simp, htail,
      by rw [List.map_cons, hblock]; exact congrArg (· :: lines) hfirst, fun t => ?_⟩
    rw [List.append_assoc, List.cons_append, linesOf,
      cutAll_append_cons (by rw [hx]; rfl), cutAll_eq_singleton hnone, ← linesOf, hcut]
    rfl

/-- Items at the beginning of a text are held by lines of its cells, whatever follows. -/
theorem exists_blocks : ∀ {items : List Item} {s : List Cell} {rest : List Char},
    chars s = written items ++ rest → AreWritten ((linesOf s).map masked) items →
    ∃ blocks a tail, s = a ++ tail ∧ chars tail = rest ∧ List.Forall₂ Holds items blocks ∧
      ∀ t, linesOf (a ++ t) = blocks.flatten ++ linesOf t
  | [], s, rest, hs, _ => ⟨[], [], s, rfl, hs, .nil, fun t => rfl⟩
  | i :: items, s, rest, hs, hwritten => by
    have hsplit : chars s = ended i.lines ++ (written items ++ rest) := by
      rw [hs, written, written, List.flatMap_cons, ended, List.flatMap_append, ← ended, ← ended,
        List.append_assoc]
    obtain ⟨hi, hitems⟩ := hwritten
    obtain ⟨block, a, s', rfl, hs', hblock, hcut⟩ := exists_block hsplit (newline_of_isWritten hi)
    have hlen : i.lines.length = block.length := by rw [← hblock, List.length_map]
    rw [hcut, List.map_append, hlen, List.take_left' (by simp)] at hi
    rw [hcut, List.map_append, hlen, List.drop_left' (by simp)] at hitems
    obtain ⟨blocks, a', tail, rfl, htail, hblocks, hcut'⟩ := exists_blocks hs' hitems
    refine ⟨block :: blocks, a ++ a', tail, by simp, htail, .cons ⟨hblock, hi⟩ hblocks, fun t => ?_⟩
    rw [List.append_assoc, hcut, hcut', List.flatten_cons, List.append_assoc]

end Lines

section Walk

theorem bracesOf_flatten (lines : List (List Cell)) :
    bracesOf (lines.map masked).flatten = unopenedIn lines := by
  induction lines with
  | nil => rfl
  | cons line lines ih =>
    have happend : ∀ a b : List Char, bracesOf (a ++ b) = bracesOf a + bracesOf b := by
      intro a b
      simp only [bracesOf, List.count_append]
      omega
    rw [List.map_cons, List.flatten_cons, happend, bracesOf_masked, ih, unopenedIn]

/-- A line of documentation, whatever stands before its mark. -/
theorem documentation?_of_chars {line : List Cell} {indent text : List Char}
    (hline : chars line = indent ++ '#' :: ' ' :: text) (hindent : ∀ c ∈ indent, isBlank c = true)
    (htext : trimEnd text = text) : documentation? line = some text := by
  have hmark : isBlank '#' = false := by decide
  have htrim : trim (chars line) = '#' :: trimEnd (' ' :: text) := by
    rw [hline, trim_eq, trimStart_blanks hindent, trimStart_cons hmark, trimEnd_cons,
      if_neg (by simp [hmark])]
  rw [documentation?, htrim, trimEnd_cons, htext]
  cases text with
  | nil => rfl
  | cons c text => simp [textAfterMark?, htext]

/-- Lines that hold an annotation are read as one. -/
theorem isAnnotation_of_holds {lines : List (List Char)} {block : List (List Cell)}
    (h : Holds (.annotated lines) block) : IsAnnotation block := by
  obtain ⟨hblock, hmark, hend, -, hsum, hopen⟩ := h
  have hblock : block.map chars = lines := hblock
  subst hblock
  refine ⟨?_, ?_, ?_, ?_⟩
  · obtain ⟨first, hfirst, hat⟩ := hmark
    rw [List.head?_map, Option.mem_def, Option.map_eq_some_iff] at hfirst
    obtain ⟨line, hline, rfl⟩ := hfirst
    exact ⟨line, hline, by rw [startsAnnotated, hat]; rfl⟩
  · intro line hline
    obtain ⟨hblank, hdoc⟩ := hend (chars line) (by
      rw [List.getLast?_map]
      exact Option.mem_map_of_mem _ hline)
    refine ⟨by simpa [isBlankLine] using hblank, ?_⟩
    rw [isDocumentation, documentation?]
    cases htrim : trim (chars line) with
    | nil => rfl
    | cons c r =>
      rw [htrim, List.head?_cons] at hdoc
      have hc : c ≠ '#' := fun he => hdoc (he ▸ rfl)
      simp [textAfterMark?, hc]
  · rwa [bracesOf_flatten] at hsum
  · intro below hbelow hne hall
    obtain ⟨upper, rfl⟩ := hbelow
    have hupper : upper ≠ [] := fun he => hall (by rw [he, List.nil_append])
    have := hopen upper.length (by simp [List.length_pos_iff.2 hne])
      (List.length_pos_iff.2 hupper)
    rwa [List.map_append, List.drop_left' (by simp), bracesOf_flatten] at this

/-- The walk up takes an item and goes on above it. -/
theorem above_item {i : Item} {block : List (List Cell)} (h : Holds i block)
    (up : List (List Cell)) :
    above [] 0 (block.reverse ++ up)
      = ⟨(above [] 0 up).documentation ++ i.text?.toList,
          (above [] 0 up).annotations ++ i.annotationLines⟩ := by
  cases i with
  | documentation indent text =>
    obtain ⟨hblock, hindent, htext, -⟩ := h
    obtain ⟨line, rfl, hline⟩ := List.map_eq_singleton_iff.1 hblock
    have hdoc := documentation?_of_chars hline hindent htext
    have hmark : isDocumentation line = true := by rw [isDocumentation, hdoc]; rfl
    rw [List.reverse_singleton, List.singleton_append,
      above_cons_of_documentation (isBlankLine_of_isDocumentation hmark) hdoc]
    simp [Item.text?, Item.annotationLines]
  | blank line =>
    obtain ⟨hblock, hblank, -⟩ := h
    obtain ⟨line', rfl, hline⟩ := List.map_eq_singleton_iff.1 hblock
    have hblank : isBlankLine line' = true := by
      rw [isBlankLine, hline, trim_eq, trimStart_eq_nil hblank]
      rfl
    rw [List.reverse_singleton, List.singleton_append, above_cons_of_blank hblank]
    simp [Item.text?, Item.annotationLines]
  | annotated lines =>
    have hblock : block.map chars = lines := h.1
    rw [above_annotated (isAnnotation_of_holds h) up, hblock]
    simp [Item.text?, Item.annotationLines]

/-- The walk up over items finds their documentation texts and annotation lines, top to bottom. -/
theorem above_items {items : List Item} {blocks : List (List (List Cell))}
    (h : List.Forall₂ Holds items blocks) :
    above [] 0 blocks.flatten.reverse
      = ⟨items.filterMap Item.text?, items.flatMap Item.annotationLines⟩ := by
  -- the walk begins at the last item, so the induction is on the items bottom to top
  have hup : ∀ {items : List Item} {blocks : List (List (List Cell))},
      List.Forall₂ Holds items blocks → above [] 0 blocks.reverse.flatten.reverse
        = ⟨items.reverse.filterMap Item.text?, items.reverse.flatMap Item.annotationLines⟩ := by
    intro items blocks h
    induction h with
    | nil => rfl
    | @cons i block items blocks hi _ ih =>
      rw [List.reverse_cons, List.flatten_append, List.flatten_singleton, List.reverse_append,
        above_item hi, ih, List.reverse_cons, List.filterMap_append, List.flatMap_append]
      simp [List.filterMap_cons]
      cases i.text? <;> rfl
  have := hup (List.forall₂_reverse_iff.2 h)
  rwa [List.reverse_reverse, List.reverse_reverse] at this

end Walk

theorem cellsBefore_width (a b : List Cell) : cellsBefore (width a) (a ++ b) = a := by
  induction a with
  | nil =>
    cases b with
    | nil => rfl
    | cons x b =>
      have := x.char.utf8Size_pos
      rw [List.nil_append, Offset.width_nil, cellsBefore, if_neg (by omega)]
  | cons x a ih =>
    rw [List.cons_append, Offset.width_cons, cellsBefore, if_pos (Nat.le_add_right _ _),
      Nat.add_sub_cancel_left, ih]

/-- Above a definition with only blanks before it on its line, the documentation texts and the
annotation lines that are written from the start of the source on are found, top to bottom. -/
theorem leadingAt_written {source : String} {items : List Item} {indent definition : List Char}
    (hsource : source.toList = written items ++ indent ++ definition)
    (hitems : AreWritten (cutAll (· == '\n') (mask source).toList) items)
    (hindent : ∀ c ∈ indent, isBlank c = true ∧ c ≠ '\n') :
    (leadingAt source (byteLength (written items ++ indent))).documentationLines
        = (items.filterMap Item.text?).map String.ofList ∧
      (leadingAt source (byteLength (written items ++ indent))).annotationText
        = joinWith ['\n'] (items.flatMap Item.annotationLines) := by
  have hcode : ∀ x ∈ cells source.toList, x.char = '\n' → x.isCode = true :=
    Scan.newline_isCode Scan.start source.toList
  rw [mask, String.toList_ofList, cutAll_masked hcode] at hitems
  have hchars : chars (cells source.toList) = written items ++ (indent ++ definition) := by
    rw [chars_cells, hsource, List.append_assoc]
  obtain ⟨blocks, a, tail, hcells, htail, hblocks, hcut⟩ := exists_blocks hchars hitems
  obtain ⟨line, rest, rfl, hline, -⟩ := List.map_eq_append_iff.1 htail
  have hwidth : byteLength (written items ++ indent) = width (a ++ line) := by
    have hfront : chars a = written items := by
      rw [hcells, Offset.chars_append, htail] at hchars
      exact List.append_cancel_right hchars
    rw [width, Offset.chars_append, hfront]
    exact congrArg (fun t => byteLength (written items ++ t)) hline.symm
  have hlast : linesOf line = [line] := by
    refine cutAll_eq_singleton fun x hx => beq_false_of_ne ?_
    exact (hindent x.char (hline ▸ List.mem_map_of_mem hx)).2
  have hblank : isBlankLine line = true := by
    rw [isBlankLine, chars, hline, trim_eq, trimStart_eq_nil fun c hc => (hindent c hc).1]
    rfl
  have hfound : leadingAt source (byteLength (written items ++ indent))
      = ⟨items.filterMap Item.text?, items.flatMap Item.annotationLines⟩ := by
    rw [leadingAt, hcells, hwidth, ← List.append_assoc, cellsBefore_width, ofBefore,
      ← linesOf, hcut, hlast, List.reverse_append, List.reverse_singleton, List.singleton_append]
    simp only [hblank, if_true]
    exact above_items hblocks
  rw [hfound]
  exact ⟨rfl, rfl⟩

/-- Documentation around an annotation over several lines, with a brace in a literal. -/
theorem leadingAt_written_brace_in_literal :
    let items : List Item := [.documentation [] "A client.".toList,
      .annotated ["@display \x7b".toList, "  label: \"\x7d\"".toList, "\x7d".toList],
      .blank [], .documentation ['\t'] "+ x - y".toList]
    let source := String.ofList (written items ++ [' '] ++ "public client class C \x7b\x7d".toList)
    let leading := leadingAt source (byteLength (written items ++ [' ']))
    AreWritten (cutAll (· == '\n') (mask source).toList) items ∧
      leading.documentationLines = ["A client.", "+ x - y"] ∧
      leading.annotationText = "@display \x7b\n  label: \"\x7d\"\n\x7d".toList := by
  intro items source leading
  have hitems : AreWritten (cutAll (· == '\n') (mask source).toList) items := by
    rw [mask, String.toList_ofList, String.toList_ofList]
    decide +kernel
  exact ⟨hitems, leadingAt_written (String.toList_ofList ..) hitems
    (List.forall_mem_singleton.2 (by decide))⟩

end ConnectorCatalog.Leading
