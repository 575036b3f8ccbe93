import ConnectorCatalog.Proofs.Neutral
import ConnectorCatalog.Proofs.Spread

/-!
# Pieces of a text in parts

Pieces are cut where all brackets, angle brackets included, make up for each other. So what a text
adds to the pieces of the text before it is known from its nesting (`exists_topPieces_append`). A text
that leaves the nesting as it was and is not cut itself lies in one piece with what is around it
(`Whole`), and such are the texts that are well nested over all four kinds of brackets with the
separator inside them only (`whole_of_nested`).
-/

namespace ConnectorCatalog

/-- The bracket that closes `c`, for the four kinds that nest types. -/
def typeClosing? (c : Char) : Option Char := if c = '<' then some '>' else closing? c

/-- A character that closes one of the four kinds of brackets. -/
def isTypeClosing (c : Char) : Bool := c == '>' || isClosing c

section

variable {α : Type _} (view : α → Char)

/-- Openings less closings, angle brackets included. -/
def typeNesting : List α → Int
  | [] => 0
  | x :: s => typeNestingStep (view x) + typeNesting s

/-- The brackets are well nested, where `pending` holds the closings that are still to come, the
next one first, and no character of `apart` stands outside all of them. -/
def nestedFrom (apart : List Char) : List Char → List α → Bool
  | pending, [] => pending.isEmpty
  | pending, x :: s =>
    match typeClosing? (view x) with
    | some closing => nestedFrom apart (closing :: pending) s
    | none =>
      if isTypeClosing (view x) then
        pending.head? == some (view x) && nestedFrom apart pending.tail s
      else !(pending.isEmpty && apart.contains (view x)) && nestedFrom apart pending s

/-- The brackets `()`, `[]`, `{}` and `<>` of a text are well nested, and no character of `apart`
stands outside all of them. -/
def nested (apart : List Char) (s : List α) : Bool := nestedFrom view apart [] s

/-- A text that is not cut and leaves the nesting as it was. -/
structure Whole (separator : Char) (s : List α) : Prop where
  pieces : topPieces view separator s = [s]
  nesting : typeNesting view s = 0

end

variable {α : Type _} {view : α → Char}

section Append

theorem typeNesting_append (s r : List α) :
    typeNesting view (s ++ r) = typeNesting view s + typeNesting view r := by
  induction s with
  | nil => exact (Int.zero_add _).symm
  | cons x s ih => rw [List.cons_append, typeNesting, typeNesting, ih, Int.add_assoc]

/-- The pieces of two texts one after the other: the last piece of the first one goes on. Where
there is more than one, the nesting at its end is that of the last piece alone. -/
theorem exists_topPiecesFrom_append (view : α → Char) (separator : Char) (s : List α) :
    ∀ depth : Int, ∃ pieces last, topPiecesFrom view separator depth s = pieces ++ [last] ∧
      (pieces = [] ∧ last = s ∨ pieces ≠ [] ∧ depth + typeNesting view s = typeNesting view last) ∧
      ∀ r, topPiecesFrom view separator depth (s ++ r)
        = pieces ++ (topPiecesFrom view separator (depth + typeNesting view s) r).modifyHead
          (last ++ ·) := by
  induction s with
  | nil =>
    intro depth
    refine ⟨[], [], rfl, .inl ⟨rfl, rfl⟩, fun r => ?_⟩
    rw [typeNesting, Int.add_zero]
    change topPiecesFrom view separator depth r = _
    cases topPiecesFrom view separator depth r <;> rfl
  | cons x s ih =>
    intro depth
    rw [typeNesting, ← Int.add_assoc]
    by_cases hcut : view x = separator ∧ typeNestingStep (view x) = 0 ∧ depth = 0
    · obtain ⟨pieces, last, hs, hn, hr⟩ := ih depth
      rw [hcut.2.1, Int.add_zero, topPiecesFrom_cons_of_cut hcut]
      refine ⟨[] :: pieces, last, by rw [hs]; rfl, .inr ⟨List.cons_ne_nil _ _, ?_⟩, fun r => ?_⟩
      · rcases hn with ⟨-, rfl⟩ | ⟨-, hn⟩
        · rw [hcut.2.2, Int.zero_add]
        · exact hn
      · rw [List.cons_append, topPiecesFrom_cons_of_cut hcut, hr]
        rfl
    · obtain ⟨pieces, last, hs, hn, hr⟩ := ih (depth + typeNestingStep (view x))
      rw [topPiecesFrom_cons_of_ne hcut]
      cases pieces with
      | nil =>
        obtain ⟨-, rfl⟩ := hn.resolve_right fun h => h.1 rfl
        refine ⟨[], x :: last, by rw [hs]; rfl, .inl ⟨rfl, rfl⟩, fun r => ?_⟩
        · rw [List.cons_append, topPiecesFrom_cons_of_ne hcut, hr]
          simp only [List.nil_append, List.modifyHead_modifyHead]
          rfl
      | cons piece pieces =>
        refine ⟨(x :: piece) :: pieces, last, by rw [hs]; rfl, .inr ⟨List.cons_ne_nil _ _, ?_⟩,
          fun r => ?_⟩
        · exact (hn.resolve_left fun h => List.cons_ne_nil _ _ h.1).2
        · rw [List.cons_append, topPiecesFrom_cons_of_ne hcut, hr]
          rfl

theorem exists_topPieces_append (view : α → Char) (separator : Char) (s : List α) :
    ∃ pieces last, topPieces view separator s = pieces ++ [last] ∧
      typeNesting view last = typeNesting view s ∧
      ∀ r, topPieces view separator (s ++ r)
        = pieces
          ++ (topPiecesFrom view separator (typeNesting view s) r).modifyHead (last ++ ·) := by
  obtain ⟨pieces, last, hs, hn, hr⟩ := exists_topPiecesFrom_append view separator s 0
  rw [Int.zero_add] at hn hr
  refine ⟨pieces, last, hs, ?_, hr⟩
  rcases hn with ⟨-, rfl⟩ | ⟨-, hn⟩
  · rfl
  · exact hn.symm

variable {separator : Char} {s r : List α}

/-- A separator outside all brackets ends a piece. -/
theorem topPieces_append_cut {x : α} (hs : typeNesting view s = 0) (hx : view x = separator)
    (hstep : typeNestingStep separator = 0) (r : List α) :
    topPieces view separator (s ++ x :: r)
      = topPieces view separator s ++ topPieces view separator r := by
  obtain ⟨pieces, last, hpieces, -, hr⟩ := exists_topPieces_append view separator s
  rw [hr, hs, topPiecesFrom_cons_of_cut ⟨hx, by rw [hx, hstep], rfl⟩, hpieces, List.modifyHead_cons,
    List.append_nil, List.append_cons]
  rfl

/-- A text that is not cut goes on in the first piece behind it. -/
theorem topPieces_append_of_uncut (hs : topPieces view separator s = [s]) (r : List α) :
    topPieces view separator (s ++ r)
      = (topPiecesFrom view separator (typeNesting view s) r).modifyHead (s ++ ·) := by
  obtain ⟨pieces, last, hpieces, -, hr⟩ := exists_topPieces_append view separator s
  obtain ⟨rfl, hlast⟩ := List.append_eq_singleton_iff.1 (hpieces.symm.trans hs) |>.resolve_right
    fun h => by simp at h
  rw [List.singleton_inj] at hlast
  rw [hr, hlast]
  rfl

theorem Whole.append (hs : Whole view separator s) (hr : Whole view separator r) :
    Whole view separator (s ++ r) where
  pieces := by
    rw [topPieces_append_of_uncut hs.pieces, hs.nesting]
    exact congrArg _ hr.pieces
  nesting := by rw [typeNesting_append, hs.nesting, hr.nesting, Int.add_zero]

end Append

section Nested

theorem typeNestingStep_of_typeClosing? {o c : Char} (h : typeClosing? o = some c) :
    typeNestingStep o = 1 := by
  unfold typeClosing? at h
  split_ifs at h with ho
  · rw [ho]
    rfl
  · obtain ⟨rfl, -⟩ | ⟨rfl, -⟩ | ⟨rfl, -⟩ := closing?_cases h <;> rfl

theorem typeNestingStep_of_isTypeClosing {c : Char} (h : isTypeClosing c = true) :
    typeNestingStep c = -1 := by
  simp only [isTypeClosing, isClosing, Bool.or_eq_true, beq_iff_eq] at h
  obtain rfl | (rfl | rfl) | rfl := h <;> rfl

theorem typeNestingStep_of_neither {c : Char} (ho : typeClosing? c = none)
    (hc : isTypeClosing c = false) : typeNestingStep c = 0 := by
  unfold typeClosing? at ho
  split_ifs at ho with hlt
  simp only [isTypeClosing, Bool.or_eq_false_iff, beq_eq_false_iff_ne] at hc
  rw [typeNestingStep, if_neg hlt, if_neg hc.1, nestingStep_of_neither ho hc.2]

variable {apart pending : List Char} {x : α} {s : List α}

/-- What the first character does to the closings that are still to come. -/
theorem nestedFrom_cons (h : nestedFrom view apart pending (x :: s) = true) :
    (∃ c, typeClosing? (view x) = some c ∧ nestedFrom view apart (c :: pending) s = true) ∨
    (∃ rest, isTypeClosing (view x) = true ∧ pending = view x :: rest ∧
      nestedFrom view apart rest s = true) ∨
    (typeClosing? (view x) = none ∧ isTypeClosing (view x) = false ∧
      (pending = [] → view x ∉ apart) ∧ nestedFrom view apart pending s = true) := by
  rw [nestedFrom] at h
  cases ho : typeClosing? (view x) with
  | some c =>
    rw [ho] at h
    exact .inl ⟨c, rfl, h⟩
  | none =>
    rw [ho] at h
    cases hc : isTypeClosing (view x) with
    | false =>
      rw [hc] at h
      simp only [Bool.false_eq_true, if_false, Bool.and_eq_true, Bool.not_eq_true',
        Bool.and_eq_false_imp, List.isEmpty_iff, List.contains_eq_mem, decide_eq_false_iff_not] at h
      exact .inr (.inr ⟨rfl, rfl, h⟩)
    | true =>
      rw [hc] at h
      cases pending with
      | nil => cases h
      | cons c rest =>
        simp only [if_true, Bool.and_eq_true, beq_iff_eq, List.head?_cons, Option.some_inj] at h
        exact .inr (.inl ⟨rest, rfl, by rw [h.1], h.2⟩)

theorem typeNesting_of_nestedFrom (h : nestedFrom view apart pending s = true) :
    typeNesting view s = -pending.length := by
  induction s generalizing pending with
  | nil =>
    rw [nestedFrom, List.isEmpty_iff] at h
    subst h
    rfl
  | cons x s ih =>
    rw [typeNesting]
    obtain ⟨c, ho, hs⟩ | ⟨rest, hc, rfl, hs⟩ | ⟨ho, hc, -, hs⟩ := nestedFrom_cons h
    · rw [ih hs, typeNestingStep_of_typeClosing? ho, List.length_cons]
      omega
    · rw [ih hs, typeNestingStep_of_isTypeClosing hc, List.length_cons]
      omega
    · rw [ih hs, typeNestingStep_of_neither ho hc]
      omega

/-- A separator that stands inside brackets only does not cut. -/
theorem topPiecesFrom_of_nestedFrom {separator : Char} (hsep : separator ∈ apart)
    (h : nestedFrom view apart pending s = true) :
    topPiecesFrom view separator pending.length s = [s] := by
  induction s generalizing pending with
  | nil => rfl
  | cons x s ih =>
    have hnext : ∀ {pending' : List Char}, nestedFrom view apart pending' s = true →
        (pending'.length : Int) = pending.length + typeNestingStep (view x) →
        ¬ (view x = separator ∧ typeNestingStep (view x) = 0 ∧ (pending.length : Int) = 0) →
        topPiecesFrom view separator pending.length (x :: s) = [x :: s] := by
      intro pending' hs hlen hcut
      rw [topPiecesFrom_cons_of_ne hcut, ← hlen, ih hs]
      rfl
    obtain ⟨c, ho, hs⟩ | ⟨rest, hc, rfl, hs⟩ | ⟨ho, hc, hx, hs⟩ := nestedFrom_cons h
    · have hstep := typeNestingStep_of_typeClosing? ho
      refine hnext hs (by rw [hstep, List.length_cons]; omega) fun hcut => ?_
      rw [hstep] at hcut
      exact absurd hcut.2.1 (by decide)
    · have hstep := typeNestingStep_of_isTypeClosing hc
      refine hnext hs (by rw [hstep, List.length_cons]; omega) fun hcut => ?_
      rw [hstep] at hcut
      exact absurd hcut.2.1 (by decide)
    · have hstep := typeNestingStep_of_neither ho hc
      refine hnext hs (by rw [hstep, Int.add_zero]) fun hcut => ?_
      rw [Int.natCast_eq_zero, List.length_eq_zero_iff] at hcut
      exact hx hcut.2.2 (hcut.1 ▸ hsep)

theorem whole_of_nested {separator : Char} (hsep : separator ∈ apart)
    (h : nested view apart s = true) : Whole view separator s :=
  ⟨topPiecesFrom_of_nestedFrom hsep h, typeNesting_of_nestedFrom h⟩

/-- Without the angle brackets the other ones are well nested. -/
theorem wellNestedFrom_of_nestedFrom (h : nestedFrom view apart pending s = true) :
    wellNestedFrom view (pending.filter (· != '>')) s = true := by
  induction s generalizing pending with
  | nil =>
    rw [nestedFrom, List.isEmpty_iff] at h
    subst h
    rfl
  | cons x s ih =>
    rw [wellNestedFrom]
    obtain ⟨c, ho, hs⟩ | ⟨rest, hc, rfl, hs⟩ | ⟨ho, hc, -, hs⟩ := nestedFrom_cons h
    · unfold typeClosing? at ho
      split_ifs at ho with hlt
      · cases ho
        have := ih hs
        rw [List.filter_cons_of_neg (by decide)] at this
        rw [hlt]
        exact this
      · have hkeep : c ≠ '>' := by
          obtain ⟨-, rfl⟩ | ⟨-, rfl⟩ | ⟨-, rfl⟩ := closing?_cases ho <;> decide
        have := ih hs
        rw [List.filter_cons_of_pos (by simpa using hkeep)] at this
        rw [ho]
        exact this
    · rw [isTypeClosing, Bool.or_eq_true, beq_iff_eq] at hc
      by_cases hgt : view x = '>'
      · rw [hgt, List.filter_cons_of_neg (by decide)]
        exact ih hs
      · have hc := hc.resolve_left hgt
        rw [closing?_of_isClosing hc, hc, List.filter_cons_of_pos (by simpa using hgt)]
        simpa using ih hs
    · unfold typeClosing? at ho
      split_ifs at ho
      rw [isTypeClosing, Bool.or_eq_false_iff] at hc
      rw [ho, hc.2]
      exact ih hs

theorem neutral_of_nested (h : nested view apart s = true) : Neutral view s :=
  neutral_of_wellNested (wellNestedFrom_of_nestedFrom h)

theorem nestedFrom_append {t : List α} (h : nestedFrom view apart pending s = true)
    (ht : nested view apart t = true) : nestedFrom view apart pending (s ++ t) = true := by
  induction s generalizing pending with
  | nil =>
    rw [nestedFrom, List.isEmpty_iff] at h
    subst h
    exact ht
  | cons x s ih =>
    rw [List.cons_append, nestedFrom]
    obtain ⟨c, ho, hs⟩ | ⟨rest, hc, rfl, hs⟩ | ⟨ho, hc, hx, hs⟩ := nestedFrom_cons h
    · rw [ho]
      exact ih hs
    · have ho : typeClosing? (view x) = none := by
        cases ho : typeClosing? (view x) with
        | none => rfl
        | some c =>
          have hstep := typeNestingStep_of_isTypeClosing hc
          rw [typeNestingStep_of_typeClosing? ho] at hstep
          cases hstep
      rw [ho, hc]
      simpa using ih hs
    · rw [ho, hc]
      simp only [Bool.false_eq_true, if_false, Bool.and_eq_true, Bool.not_eq_true',
        Bool.and_eq_false_imp, List.isEmpty_iff, List.contains_eq_mem, decide_eq_false_iff_not]
      exact ⟨hx, ih hs⟩

theorem nested_append {t : List α} (h : nested view apart s = true)
    (ht : nested view apart t = true) : nested view apart (s ++ t) = true := nestedFrom_append h ht

/-- A text without brackets and separators is well nested. -/
theorem nested_of_forall (hs : ∀ x ∈ s, typeClosing? (view x) = none ∧
    isTypeClosing (view x) = false ∧ view x ∉ apart) : nested view apart s = true := by
  induction s with
  | nil => rfl
  | cons x s ih =>
    obtain ⟨ho, hc, hx⟩ := hs x (List.mem_cons_self ..)
    rw [nested, nestedFrom, ho, hc, List.contains_eq_mem, decide_eq_false hx]
    exact ih fun y hy => hs y (List.mem_cons_of_mem _ hy)

theorem typeClosing?_eq_none {c : Char} (h : c ∉ ['\x7b', '(', '[', '<']) :
    typeClosing? c = none := by
  simp only [List.mem_cons, List.not_mem_nil, or_false, not_or] at h
  rw [typeClosing?, closing?, if_neg h.2.2.2, if_neg h.1, if_neg h.2.1, if_neg h.2.2.1]

theorem isTypeClosing_eq_false {c : Char} (h : c ∉ ['\x7d', ')', ']', '>']) :
    isTypeClosing c = false := by
  simp only [List.mem_cons, List.not_mem_nil, or_false, not_or] at h
  simp [isTypeClosing, isClosing, h]

theorem notMem_of_isBlank {c : Char} (h : isBlank c = true) {l : List Char}
    (hl : l.any isBlank = false) : c ∉ l := by
  intro hmem
  rw [List.any_eq_false] at hl
  exact hl c hmem h

theorem neither_of_isBlank {c : Char} (h : isBlank c = true) :
    typeClosing? c = none ∧ isTypeClosing c = false :=
  ⟨typeClosing?_eq_none (notMem_of_isBlank h (by decide)),
    isTypeClosing_eq_false (notMem_of_isBlank h (by decide))⟩

/-- Blanks are well nested. -/
theorem nested_of_blank (hs : ∀ x ∈ s, isBlank (view x) = true)
    (hapart : apart.any isBlank = false) : nested view apart s = true := by
  refine nested_of_forall fun x hx => ?_
  obtain ⟨ho, hc⟩ := neither_of_isBlank (hs x hx)
  exact ⟨ho, hc, notMem_of_isBlank (hs x hx) hapart⟩

theorem neutral_of_blank (hs : ∀ x ∈ s, isBlank (view x) = true) : Neutral view s :=
  neutral_of_nested (nested_of_blank hs rfl : nested view [] s = true)

/-- Blanks go on in a piece, whatever the nesting. -/
theorem topPiecesFrom_of_blank {separator : Char} (hsep : isBlank separator = false)
    (hs : ∀ x ∈ s, isBlank (view x) = true) (depth : Int) :
    topPiecesFrom view separator depth s = [s] ∧ typeNesting view s = 0 := by
  induction s with
  | nil => exact ⟨rfl, rfl⟩
  | cons x s ih =>
    have hx := hs x (List.mem_cons_self ..)
    obtain ⟨ho, hc⟩ := neither_of_isBlank hx
    obtain ⟨ihs, ihn⟩ := ih fun y hy => hs y (List.mem_cons_of_mem _ hy)
    have hcut : ¬ (view x = separator ∧ typeNestingStep (view x) = 0 ∧ depth = 0) := by
      rintro ⟨rfl, -⟩
      rw [hx] at hsep
      cases hsep
    rw [topPiecesFrom_cons_of_ne hcut, typeNesting, typeNestingStep_of_neither ho hc, Int.add_zero,
      ihs, ihn]
    exact ⟨rfl, rfl⟩

theorem whole_of_blank {separator : Char} (hsep : isBlank separator = false)
    (hs : ∀ x ∈ s, isBlank (view x) = true) : Whole view separator s :=
  have h := topPiecesFrom_of_blank hsep hs 0
  ⟨h.1, h.2⟩

/-- The cells of a plain text are as well nested as its characters. -/
theorem nestedFrom_map {β : Type _} (f : β → α) (apart pending : List Char) (s : List β) :
    nestedFrom view apart pending (s.map f) = nestedFrom (view ∘ f) apart pending s := by
  induction s generalizing pending with
  | nil => rfl
  | cons x s ih =>
    simp only [List.map_cons, nestedFrom, ih]
    rfl

end Nested

end ConnectorCatalog
