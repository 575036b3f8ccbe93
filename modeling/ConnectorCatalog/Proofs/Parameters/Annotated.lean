import ConnectorCatalog.Proofs.Nested
import ConnectorCatalog.Proofs.Offset.Parameter
import ConnectorCatalog.Proofs.Segment
import ConnectorCatalog.Proofs.Trim

/-!
# Annotations in front of a parameter

Annotations are dropped one after the other. The mapping of an annotation is taken to end at the
first closing brace in it, so what is left of a parameter is its declaration exactly if no mapping
holds a closing brace (`withoutAnnotations_written_iff`). A mapping in the mapping or a string with a
brace leaves the rest of the annotation to the type of the parameter (`annotation_left_in_type`).
-/

namespace ConnectorCatalog

/-- What is left of two texts that differ in the blanks before them. -/
theorem withoutAnnotations_congr {s t : List Char} (h : trimStart s = trimStart t) :
    withoutAnnotations s = withoutAnnotations t := by
  by_cases hmark : (trimStart t).head? = some '@'
  · obtain ⟨r, hr⟩ := List.head?_eq_some_iff.1 hmark
    rw [withoutAnnotations_of_mark hr, withoutAnnotations_of_mark (h.trans hr)]
  · rw [withoutAnnotations_of_none hmark, withoutAnnotations_of_none (h ▸ hmark), h]

/-- A name without blanks and braces. -/
def IsAnnotationName (n : List Char) : Prop :=
  ∀ c ∈ n, isBlank c = false ∧ c ≠ '\x7b' ∧ c ≠ '\x7d'

instance (n : List Char) : Decidable (IsAnnotationName n) := List.decidableBAll _ n

/-- An annotation and the blanks behind it, as it is written. -/
structure WrittenAnnotation where
  name : List Char
  /-- The blanks in front of a mapping, and what stands between its braces. -/
  mapping? : Option (List Char × List Char)
  after : List Char
deriving DecidableEq, Repr

namespace WrittenAnnotation

/-- The mapping with its braces and the blanks in front of it. -/
def mappingText (a : WrittenAnnotation) : List Char :=
  match a.mapping? with
  | none => []
  | some (gap, inside) => gap ++ '\x7b' :: (inside ++ ['\x7d'])

def text (a : WrittenAnnotation) : List Char := '@' :: (a.name ++ (a.mappingText ++ a.after))

/-- An annotation is written as it should be: its name has no blanks and no braces, and blanks stand
around its mapping, behind the name at least one if there is no mapping. -/
structure IsWritten (a : WrittenAnnotation) : Prop where
  name : IsAnnotationName a.name
  gap : ∀ m ∈ a.mapping?, ∀ c ∈ m.1, isBlank c = true
  after : ∀ c ∈ a.after, isBlank c = true
  apart : a.mapping? = none → a.after ≠ []

/-- The mapping holds no closing brace. -/
def IsFlat (a : WrittenAnnotation) : Prop := ∀ m ∈ a.mapping?, '\x7d' ∉ m.2

/-- Behind no closing brace in the mapping an annotation seems to begin. -/
def GoesOn (a : WrittenAnnotation) : Prop :=
  ∀ m ∈ a.mapping?, ∀ u v, m.2 = u ++ '\x7d' :: v → (trimStart v).head? ≠ some '@'

variable {a : WrittenAnnotation} {gap inside r : List Char}

theorem IsFlat.goesOn (h : a.IsFlat) : a.GoesOn := by
  intro m hm u v hsplit
  have hmem : '\x7d' ∈ m.2 := by simp [hsplit]
  exact absurd hmem (h m hm)

/-- The name ends where a blank or a brace follows. -/
theorem afterName_name (ha : a.IsWritten)
    (hr : ∀ c, r.head? = some c → isBlank c = true ∨ c = '\x7b') :
    afterName (a.name ++ r) = trimStart r := by
  rw [afterName, List.dropWhile_append_of_pos]
  · rcases r with _ | ⟨c, r⟩
    · rfl
    · rw [List.dropWhile_cons_of_neg]
      rcases hr c rfl with hc | rfl
      · simp [hc]
      · decide
  · intro c hc
    obtain ⟨hblank, hbrace, -⟩ := ha.name c hc
    simp [hblank, hbrace]

/-- Without a mapping an annotation ends behind its name. -/
theorem withoutAnnotations_bare (ha : a.IsWritten) (h : a.mapping? = none)
    (hr : (trimStart r).head? ≠ some '\x7b') :
    withoutAnnotations (a.text ++ r) = withoutAnnotations r := by
  have htext : a.text ++ r = '@' :: (a.name ++ (a.after ++ r)) := by
    simp [text, mappingText, h]
  have hafter : trimStart (a.after ++ r) = trimStart r := trimStart_blanks ha.after r
  have hname : afterName (a.name ++ (a.after ++ r)) = trimStart r := by
    rw [afterName_name ha, hafter]
    intro c hc
    obtain ⟨d, after, hd⟩ := List.exists_cons_of_ne_nil (ha.apart h)
    rw [hd, List.cons_append, List.head?_cons, Option.some_inj] at hc
    exact .inl (ha.after c (by rw [hd, hc]; exact List.mem_cons_self ..))
  rw [htext, withoutAnnotations_of_mark (trimStart_cons (by decide) _),
    annotationRest_of_none (by rwa [hname]), hname]
  exact withoutAnnotations_congr (trimStart_trimStart r)

/-- A mapping is taken to end at the first closing brace. -/
theorem withoutAnnotations_mapping (ha : a.IsWritten) (h : a.mapping? = some (gap, inside))
    {u v : List Char} (hu : '\x7d' ∉ u)
    (hsplit : inside ++ '\x7d' :: (a.after ++ r) = u ++ '\x7d' :: v) :
    withoutAnnotations (a.text ++ r) = withoutAnnotations v := by
  have hgap : ∀ c ∈ gap, isBlank c = true := ha.gap (gap, inside) h
  have htext : a.text ++ r = '@' :: (a.name ++ (gap ++ '\x7b' :: (u ++ '\x7d' :: v))) := by
    rw [← hsplit]
    simp [text, mappingText, h]
  have hname : afterName (a.name ++ (gap ++ '\x7b' :: (u ++ '\x7d' :: v)))
      = '\x7b' :: (u ++ '\x7d' :: v) := by
    rw [afterName_name ha, trimStart_blanks hgap, trimStart_cons (by decide)]
    intro c hc
    rcases gap with _ | ⟨d, gap⟩
    · exact .inr (Option.some_inj.1 hc).symm
    · obtain rfl : d = c := Option.some_inj.1 hc
      exact .inl (hgap d (List.mem_cons_self ..))
  have hcut : cutAtFirst (· == '\x7d') (u ++ '\x7d' :: v) = some (u, v) := by
    refine cutAtFirst_append (fun c hc => beq_false_of_ne ?_) rfl v
    rintro rfl
    exact hu hc
  rw [htext, withoutAnnotations_of_mark (trimStart_cons (by decide) _),
    annotationRest_of_mapping hname, hcut]
  rfl

/-- An annotation is dropped with the blanks behind it, if no closing brace stands in its mapping. -/
theorem withoutAnnotations_text (ha : a.IsWritten) (hflat : a.IsFlat)
    (hr : a.mapping? = none → (trimStart r).head? ≠ some '\x7b') :
    withoutAnnotations (a.text ++ r) = withoutAnnotations r := by
  cases h : a.mapping? with
  | none => exact withoutAnnotations_bare ha h (hr h)
  | some m =>
    rw [withoutAnnotations_mapping ha h (hflat m h) rfl]
    exact withoutAnnotations_congr (trimStart_blanks ha.after r)

/-- More than what follows is left, if a closing brace stands in the mapping. -/
theorem length_withoutAnnotations_text (ha : a.IsWritten) (hgoes : a.GoesOn) (hflat : ¬ a.IsFlat)
    (r : List Char) : r.length < (withoutAnnotations (a.text ++ r)).length := by
  simp only [IsFlat, not_forall, not_not] at hflat
  obtain ⟨⟨gap, inside⟩, h, hmem⟩ := hflat
  obtain ⟨u, v, rfl, hu⟩ := List.eq_append_cons_of_mem hmem
  have hsplit : u ++ '\x7d' :: v ++ '\x7d' :: (a.after ++ r)
      = u ++ '\x7d' :: (v ++ '\x7d' :: (a.after ++ r)) := by simp
  have hstart : trimStart (v ++ '\x7d' :: (a.after ++ r)) = trimStart v ++ '\x7d' :: (a.after ++ r) :=
    trimStart_append_of_not_blank (by decide) v _
  have hmark : (trimStart (v ++ '\x7d' :: (a.after ++ r))).head? ≠ some '@' := by
    have hv := hgoes _ h u v rfl
    rw [hstart]
    rcases ht : trimStart v with _ | ⟨c, t⟩
    · simp
    · rwa [ht] at hv
  rw [withoutAnnotations_mapping ha h hu hsplit, withoutAnnotations_of_none hmark, hstart]
  simp only [List.length_append, List.length_cons]
  omega

end WrittenAnnotation

/-- Annotations one after the other, and a declaration behind them. -/
def annotated (as : List WrittenAnnotation) (declaration : List Char) : List Char :=
  as.flatMap WrittenAnnotation.text ++ declaration

/-- A declaration may stand behind annotations: it begins with no blank and no annotation, and with a
brace only behind a mapping. -/
structure StandsBehind (as : List WrittenAnnotation) (declaration : List Char) : Prop where
  trim : trimStart declaration = declaration
  head : declaration.head? ≠ some '@'
  brace : ∀ a ∈ as.getLast?, a.mapping? = none → declaration.head? ≠ some '\x7b'

theorem StandsBehind.tail {a : WrittenAnnotation} {as : List WrittenAnnotation}
    {declaration : List Char} (h : StandsBehind (a :: as) declaration) :
    StandsBehind as declaration where
  trim := h.trim
  head := h.head
  brace b hb := h.brace b (by
    rcases as with _ | ⟨c, as⟩
    · cases hb
    · rwa [List.getLast?_cons_cons])

/-- What stands behind an annotation without a mapping is not taken for its mapping. -/
theorem StandsBehind.head_annotated {a : WrittenAnnotation} {as : List WrittenAnnotation}
    {declaration : List Char} (h : StandsBehind (a :: as) declaration) (ha : a.mapping? = none) :
    (trimStart (annotated as declaration)).head? ≠ some '\x7b' := by
  rcases as with _ | ⟨b, as⟩
  · change (trimStart declaration).head? ≠ _
    rw [h.trim]
    exact h.brace a rfl ha
  · have hmark : annotated (b :: as) declaration
        = '@' :: (b.name ++ (b.mappingText ++ b.after) ++ annotated as declaration) := by
      simp [annotated, WrittenAnnotation.text]
    rw [hmark, trimStart_cons (by decide)]
    simp

/-- Of a declaration with annotations in front of it the declaration is left, exactly if no mapping
holds a closing brace. Nothing else is asked of the mappings, but that in none of them an annotation
seems to begin behind such a brace. -/
theorem withoutAnnotations_written_iff {as : List WrittenAnnotation}
    (has : ∀ a ∈ as, a.IsWritten) (hgoes : ∀ a ∈ as, a.GoesOn) {declaration : List Char}
    (hd : StandsBehind as declaration) :
    withoutAnnotations (annotated as declaration) = declaration ↔ ∀ a ∈ as, a.IsFlat := by
  induction as with
  | nil =>
    have hhead : (trimStart declaration).head? ≠ some '@' := by
      rw [hd.trim]
      exact hd.head
    rw [annotated, List.flatMap_nil, List.nil_append, withoutAnnotations_of_none hhead, hd.trim]
    exact ⟨fun _ => nofun, fun _ => rfl⟩
  | cons a as ih =>
    obtain ⟨ha, has⟩ := List.forall_mem_cons.1 has
    obtain ⟨hgoesA, hgoes⟩ := List.forall_mem_cons.1 hgoes
    have hsplit : annotated (a :: as) declaration = a.text ++ annotated as declaration := by
      simp [annotated]
    rw [hsplit, List.forall_mem_cons]
    by_cases hflat : a.IsFlat
    · rw [a.withoutAnnotations_text ha hflat hd.head_annotated, ih has hgoes hd.tail,
        and_iff_right hflat]
    · have hlength := a.length_withoutAnnotations_text ha hgoesA hflat (annotated as declaration)
      refine iff_of_false (fun h => ?_) fun h => hflat h.1
      rw [h, annotated, List.length_append] at hlength
      omega

/-- A mapping, a bare name and a line break in front of a declaration. -/
theorem withoutAnnotations_written_two :
    let display : WrittenAnnotation :=
      ⟨"display".toList, some ([' '], "label: \"Name\", iconPath: \"[i].png\"".toList), [' ']⟩
    let untainted : WrittenAnnotation := ⟨"untainted".toList, none, ['\n']⟩
    let text := annotated [display, untainted] "string name".toList
    text = "@display \x7blabel: \"Name\", iconPath: \"[i].png\"\x7d @untainted\nstring name".toList ∧
      withoutAnnotations text = "string name".toList := by
  intro display untainted text
  have hspace : ∀ c ∈ [' '], isBlank c = true := List.all_eq_true.1 (by decide)
  have hdisplay : display.IsWritten ∧ display.IsFlat := by
    refine ⟨⟨by decide, ?_, hspace, nofun⟩, ?_⟩
    · rintro _ ⟨⟩
      exact hspace
    · rintro _ ⟨⟩
      decide
  have huntainted : untainted.IsWritten ∧ untainted.IsFlat :=
    ⟨⟨by decide, nofun, List.all_eq_true.1 (by decide), fun _ => List.cons_ne_nil _ _⟩, nofun⟩
  have hwritten : ∀ a ∈ [display, untainted], a.IsWritten := by
    simpa using ⟨hdisplay.1, huntainted.1⟩
  have hflat : ∀ a ∈ [display, untainted], a.IsFlat := by
    simpa using ⟨hdisplay.2, huntainted.2⟩
  refine ⟨by decide +kernel, ?_⟩
  exact (withoutAnnotations_written_iff hwritten (fun a ha => (hflat a ha).goesOn)
    ⟨by decide, by decide, by decide⟩).2 hflat

/-- A mapping in the mapping, or a string with a closing brace, leaves the end of the annotation in the
type of the parameter, although the braces balance outside strings. -/
theorem annotation_left_in_type :
    let text := fun inside : String => "@A \x7b" ++ inside ++ "\x7d int x"
    let left := fun inside => String.ofList (withoutAnnotations (text inside).toList)
    let types := fun inside => (connectorsOfSource ⟨"org", "pack", "1.0.0"⟩ "pack" .detailed
      ("public client class A \x7bremote function f(" ++ text inside ++ ")\x7b\x7d\x7d")).map fun c =>
        c.functions.map fun f => f.parameters.map Parameter.typeName
    let balances := fun inside : String => (Scan.inLine.final inside.toList).context = .code ∧
      wellNested Cell.shown (Scan.inLine.cells inside.toList) = true
    left "a: 1" = "int x" ∧
      balances "a: \x7bb: 1\x7d" ∧ left "a: \x7bb: 1\x7d" = "\x7d int x" ∧
      types "a: \x7bb: 1\x7d" = [[["\x7d int"]]] ∧
      balances "a: \"\x7d\"" ∧ left "a: \"\x7d\"" = "\"\x7d int x" ∧
      types "a: \"\x7d\"" = [[["\"\x7d int"]]] := by
  decide +kernel

end ConnectorCatalog
