import ConnectorCatalog.Offset.Signature
import ConnectorCatalog.Proofs.Offset.Bracket
import Mathlib.Data.List.DropRight

/-!
# Parameters by offset

A declaration loses the same annotations whether they are measured out by offsets or read off its
characters (`stripAnnotations_eq`). The ranges of a parameter list begin and end at cuts of the
document, in the masked text and in the source, so declarations can be cut from the source. Where
counts are small the parameters are those of the cells (`runs_parametersAt`).
-/

namespace ConnectorCatalog

theorem trimStart_trimStart (t : List Char) : trimStart (trimStart t) = trimStart t :=
  List.dropWhile_idempotent ..

/-- Nothing is left of a text without its blanks exactly if it has nothing else. -/
theorem isEmpty_trim (t : List Char) : (trim t).isEmpty = t.all isBlank := by
  rw [Bool.eq_iff_iff, List.isEmpty_iff, trim, trimWhile, dropEndWhile, List.reverse_eq_nil_iff,
    List.dropWhile_eq_nil_iff, List.all_eq_true]
  constructor
  · intro h
    rw [← List.dropWhile_eq_nil_iff]
    cases hd : t.dropWhile isBlank with
    | nil => rfl
    | cons c r =>
      have hc := List.head_dropWhile_not isBlank (l := t) (by rw [hd]; exact List.cons_ne_nil _ _)
      simp only [hd, List.head_cons] at hc
      rw [hd] at h
      rw [h c (by simp)] at hc
      cases hc
  · intro h c hc
    exact h c ((List.dropWhile_sublist _).subset (List.mem_reverse.1 hc))

theorem withoutAnnotations_of_mark {t r : List Char} (h : trimStart t = '@' :: r) :
    withoutAnnotations t = withoutAnnotations (annotationRest r) := by
  rw [withoutAnnotations]
  split
  · rename_i r' hr
    rw [h] at hr
    cases hr
    rfl
  · rename_i hr
    exact absurd h (hr r)

theorem withoutAnnotations_of_none {t : List Char} (h : (trimStart t).head? ≠ some '@') :
    withoutAnnotations t = trimStart t := by
  rw [withoutAnnotations]
  split
  · rename_i r hr
    rw [hr] at h
    exact absurd rfl h
  · rfl

/-- The text from the end of an annotation's name on, without blanks before it. -/
def afterName (s : List Char) : List Char :=
  trimStart (s.dropWhile fun c => !(isBlank c || c == '\x7b'))

theorem annotationRest_of_mapping {r mapping : List Char} (h : afterName r = '\x7b' :: mapping) :
    annotationRest r = ((cutAtFirst (· == '\x7d') mapping).map Prod.snd).getD [] := by
  rw [afterName] at h
  rw [annotationRest, h]
  rfl

theorem annotationRest_of_none {r : List Char} (h : (afterName r).head? ≠ some '\x7b') :
    annotationRest r = afterName r := by
  rw [annotationRest]
  split
  · rename_i mapping hr
    rw [afterName, hr] at h
    exact absurd rfl h
  · rfl

namespace Offset

theorem all_isBlank_masked (s : List Cell) : (masked s).all isBlank = s.all Cell.isBlankCode := by
  induction s with
  | nil => rfl
  | cons x s ih =>
    rw [masked, List.flatMap_cons, List.all_append, ← masked, ih, List.all_cons]
    congr 1
    rw [Cell.masked, Cell.isBlankCode, Cell.shown]
    cases x.isCode with
    | true => simp
    | false =>
      simp only [Bool.false_eq_true, if_false, List.all_replicate]
      exact if_neg (Nat.ne_of_gt x.char.utf8Size_pos)

/-- The slice from the first character that satisfies `p` to the end. -/
theorem slice_findChar? (p : Char → Bool) (t : List Char) :
    slice t ((findChar? p t).getD (byteLength t)) (byteLength t)
      = .ok (t.dropWhile fun c => !p c) := by
  rw [findChar?]
  cases h : cutAtFirst p t with
  | none =>
    have hdrop : (t.dropWhile fun c => !p c) = [] := by
      rw [List.dropWhile_eq_nil_iff]
      intro c hc
      rw [cutAtFirst_eq_none h c hc]
      rfl
    have := slice_append t [] []
    rwa [List.append_nil, List.append_nil, ← hdrop] at this
  | some q =>
    obtain ⟨a, b⟩ := q
    obtain ⟨c, hc, rfl, ha⟩ := cutAtFirst_eq_some h
    have := slice_append a (c :: b) []
    rw [List.append_nil] at this
    rw [Option.map_some, Option.getD_some, this,
      List.dropWhile_append_of_pos fun d hd => by rw [ha d hd]; rfl, List.dropWhile_cons, hc]
    rfl

/-- Measured out by offsets, an annotation ends where it does. -/
theorem afterAnnotation_eq (r : List Char) :
    afterAnnotation ('@' :: r) = .ok (trimStart (annotationRest r)) := by
  have hrest := slice_findChar? (fun c => isBlank c || c == '\x7b') ('@' :: r)
  have hmark : (!(isBlank '@' || '@' == '\x7b')) = true := by decide
  rw [List.dropWhile_cons, if_pos hmark] at hrest
  unfold afterAnnotation
  rw [annotationNameEnd, hrest]
  simp only [bind, Except.bind]
  rw [← afterName]
  by_cases h : (afterName r).head? = some '\x7b'
  · rw [if_pos h]
    obtain ⟨mapping, hr⟩ := List.head?_eq_some_iff.1 h
    rw [annotationRest_of_mapping hr, hr, findChar?, cutAtFirst, if_neg (by decide)]
    cases hm : cutAtFirst (· == '\x7d') mapping with
    | none => rfl
    | some q =>
      obtain ⟨a, b⟩ := q
      obtain ⟨e, he, rfl, -⟩ := cutAtFirst_eq_some hm
      obtain rfl : e = '\x7d' := beq_iff_eq.1 he
      have hslice := slice_append ('\x7b' :: a ++ ['\x7d']) b []
      have hlen : byteLength ('\x7b' :: a ++ ['\x7d']) = byteLength ('\x7b' :: a) + 1 := by
        rw [byteLength_append]
        rfl
      have htext : '\x7b' :: a ++ ['\x7d'] ++ b = '\x7b' :: (a ++ '\x7d' :: b) := by simp
      rw [List.append_nil, hlen, htext] at hslice
      simp only [Option.map_some, hslice, Option.getD_some]
      rfl
  · rw [if_neg h, annotationRest_of_none h, afterName, trimStart_trimStart]
    rfl

theorem stripFrom_of_mark (r : List Char) :
    stripFrom ('@' :: r) = stripFrom (trimStart (annotationRest r)) := by
  rw [stripFrom]
  split
  · rename_i e h
    rw [afterAnnotation_eq] at h
    cases h
  · rename_i rest h
    rw [afterAnnotation_eq] at h
    cases h
    rfl

theorem stripFrom_of_none {t : List Char} (h : t.head? ≠ some '@') : stripFrom t = .ok t := by
  unfold stripFrom
  split
  · exact absurd List.head?_cons h
  · rfl

/-- Measured out by offsets, a declaration loses the annotations before it. -/
theorem stripAnnotations_eq (t : List Char) : stripAnnotations t = .ok (withoutAnnotations t) := by
  rw [stripAnnotations]
  induction hn : t.length using Nat.strongRecOn generalizing t with
  | _ n ih =>
    by_cases h : (trimStart t).head? = some '@'
    · obtain ⟨r, hr⟩ := List.head?_eq_some_iff.1 h
      rw [withoutAnnotations_of_mark hr, hr, stripFrom_of_mark]
      exact ih _ (hn ▸ length_annotationRest_lt hr) _ rfl
    · rw [withoutAnnotations_of_none h, stripFrom_of_none h]

section Related

variable {α β : Type} {R : α → β → Prop} {xs : List α} {ys : List β}

theorem filterAuxM_of_forall₂ {f : α → Except Fault Bool} {g : β → Bool} (h : List.Forall₂ R xs ys)
    (hf : ∀ x y, R x y → f x = .ok (g y)) (kept : List α) :
    ∃ zs, xs.filterAuxM f kept = .ok (zs.reverse ++ kept) ∧ List.Forall₂ R zs (ys.filter g) := by
  induction h generalizing kept with
  | nil => exact ⟨[], rfl, .nil⟩
  | @cons x y xs ys hr _ ih =>
    rw [List.filterAuxM, hf x y hr]
    cases hy : g y with
    | false =>
      obtain ⟨zs, hok, hrel⟩ := ih kept
      exact ⟨zs, hok, by rwa [List.filter_cons_of_neg (by rw [hy]; decide)]⟩
    | true =>
      obtain ⟨zs, hok, hrel⟩ := ih (x :: kept)
      refine ⟨x :: zs, ?_, by rw [List.filter_cons_of_pos hy]; exact .cons hr hrel⟩
      rw [List.reverse_cons, List.append_assoc]
      exact hok

theorem filterM_of_forall₂ {f : α → Except Fault Bool} {g : β → Bool} (h : List.Forall₂ R xs ys)
    (hf : ∀ x y, R x y → f x = .ok (g y)) :
    ∃ zs, xs.filterM f = .ok zs ∧ List.Forall₂ R zs (ys.filter g) := by
  obtain ⟨zs, hok, hrel⟩ := filterAuxM_of_forall₂ h hf []
  refine ⟨zs, ?_, hrel⟩
  rw [List.filterM, hok, List.append_nil]
  exact congrArg Except.ok (List.reverse_reverse zs)

end Related

variable {document s : List Cell} {range : Nat × Nat}

theorem isShown_eq (h : IsRange document range s) :
    isShown (masked document) range = .ok (!s.all Cell.isBlankCode) := by
  obtain ⟨u, v, rfl, rfl⟩ := h
  rw [isShown, slice_masked, ← all_isBlank_masked, ← isEmpty_trim]
  rfl

variable {mode : Overflow} {small : Prop}

theorem runs_parameterAt (docs : Documentation) (hsmall : small → width document < countLimit)
    (h : IsRange document range s) :
    Runs mode small (fun found => small → found = Parameter.ofCells? docs s)
      (parameterAt mode docs (chars document) (masked document) range) := by
  rw [parameterAt]
  refine (runs_splitTopLevel '=' (by decide) hsmall h).bind ?_
  rintro ranges ⟨pieces, hne, hranges, hpieces⟩
  obtain ⟨declaration, defaults, rfl⟩ := List.exists_cons_of_ne_nil hne
  obtain ⟨first, rest, ⟨u, v, hdocument, rfl⟩, hrest, rfl⟩ := List.forall₂_cons_right_iff.1 hranges
  have hlen := hrest.length_eq
  have hfirst : elementAt ((width u, width (u ++ declaration)) :: rest) 0
      = .ok (width u, width (u ++ declaration)) := rfl
  have hslice := slice_chars u declaration v
  rw [← hdocument] at hslice
  have hdefaults : decide (1 < ((width u, width (u ++ declaration)) :: rest).length)
      = !defaults.isEmpty := by
    rw [List.length_cons, hlen]
    cases defaults <;> simp
  have hcells : small → Parameter.ofCells? docs s
      = (cutAtLast isBlank (withoutAnnotations (trim (chars declaration)))).map fun found =>
        { name := String.ofList (trim found.2)
          typeName := String.ofList (trim found.1)
          defaultable := !defaults.isEmpty
          documentation := docs.parameter? (String.ofList (trim found.2)) } := by
    intro hs
    rw [Parameter.ofCells?, ← hpieces hs]
  simp only [bind, Except.bind, hfirst, hslice, stripAnnotations_eq, hdefaults]
  cases hcut : cutAtLast isBlank (withoutAnnotations (trim (chars declaration))) with
  | none => exact fun hs => by rw [hcells hs, hcut, Option.map_none]
  | some found => exact fun hs => by rw [hcells hs, hcut, Option.map_some]

/-- The parameters between two cuts of a document. -/
theorem runs_parametersAt (docs : Documentation) (hsmall : small → width document < countLimit)
    (h : IsRange document range s) :
    Runs mode small (fun found => small → found = parametersOf docs s)
      (parametersAt mode docs (chars document) (masked document) range.1 range.2) := by
  rw [parametersAt]
  refine (runs_splitTopLevel ',' (by decide) hsmall h).bind ?_
  rintro ranges ⟨pieces, -, hranges, hpieces⟩
  obtain ⟨shown, hshown, hkept⟩ := filterM_of_forall₂ hranges fun range piece => isShown_eq
  rw [hshown]
  refine (Runs.mapM hkept fun range piece => runs_parameterAt docs hsmall).bind ?_
  intro found hfound hs
  rw [hfound hs, List.filterMap_map, hpieces hs]
  rfl

end Offset

end ConnectorCatalog
