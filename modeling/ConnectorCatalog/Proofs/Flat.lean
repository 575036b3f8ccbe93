import ConnectorCatalog.Connector.Extract
import ConnectorCatalog.Proofs.Header
import ConnectorCatalog.Proofs.Spread

/-!
# Cells and their masked text

A masked text read as code (`plain`) has a cell for each byte that was blanked, where the source has
one cell for each character (`flat`). Headers, partners and nesting are the same in both: everything
that is found in cells can be found in the masked text alone (`occurrences_flat`).
-/

namespace ConnectorCatalog

/-- A text that is all code. -/
def plain (t : List Char) : List Cell := t.map fun c => ⟨c, true⟩

/-- The cells that the masked form of a cell has. -/
def Cell.flat (x : Cell) : List Cell := plain x.masked

/-- The cells that the masked form of some cells has. -/
def flat (s : List Cell) : List Cell := s.flatMap Cell.flat

theorem flat_nil : flat [] = [] := rfl

theorem flat_cons (x : Cell) (s : List Cell) : flat (x :: s) = x.flat ++ flat s := rfl

theorem flat_append (s r : List Cell) : flat (s ++ r) = flat s ++ flat r := List.flatMap_append

theorem flat_eq_plain (s : List Cell) : flat s = plain (masked s) := by
  rw [flat, masked, plain, List.map_flatMap]
  rfl

theorem chars_plain (t : List Char) : chars (plain t) = t := by
  rw [chars, plain, List.map_map]
  exact List.map_id t

theorem masked_plain (t : List Char) : masked (plain t) = t := by
  simp [masked, plain, Cell.masked, List.flatMap_map]

theorem masked_flat (s : List Cell) : masked (flat s) = masked s := by
  rw [flat_eq_plain, masked_plain]

theorem masked_cons (x : Cell) (s : List Cell) : masked (x :: s) = x.masked ++ masked s := rfl

theorem masked_append (s r : List Cell) : masked (s ++ r) = masked s ++ masked r :=
  List.flatMap_append

namespace Cell

theorem flat_of_isCode {x : Cell} (hx : x.isCode = true) : x.flat = [x] := by
  obtain ⟨c, isCode⟩ := x
  subst hx
  rfl

theorem flat_of_not_isCode {x : Cell} (hx : x.isCode = false) :
    x.flat = List.replicate x.char.utf8Size ⟨' ', true⟩ := by
  rw [Cell.flat, Cell.masked, hx, if_neg Bool.false_ne_true, plain, List.map_replicate]

theorem shown_of_not_isCode {x : Cell} (hx : x.isCode = false) : x.shown = ' ' := by
  rw [Cell.shown, hx, if_neg Bool.false_ne_true]

theorem isCode_of_not_blank {x : Cell} (hx : x.isBlankCode = false) : x.isCode = true := by
  cases h : x.isCode with
  | true => rfl
  | false =>
    rw [isBlankCode, shown_of_not_isCode h] at hx
    cases hx

theorem masked_of_not_blank {x : Cell} (hx : x.isBlankCode = false) : x.masked = [x.shown] := by
  rw [masked, shown, isCode_of_not_blank hx]
  rfl

/-- All that stands for a cell in the masked text shows what the cell shows. -/
theorem shown_of_mem_flat {x y : Cell} (h : y ∈ x.flat) : y.shown = x.shown := by
  cases hx : x.isCode with
  | true =>
    rw [flat_of_isCode hx, List.mem_singleton] at h
    rw [h]
  | false =>
    rw [flat_of_not_isCode hx] at h
    rw [List.eq_of_mem_replicate h, shown_of_not_isCode hx]
    rfl

theorem isBlank_of_mem_masked {x : Cell} (hx : x.isBlankCode = true) {c : Char}
    (hc : c ∈ x.masked) : isBlank c = true := by
  have hshown := shown_of_mem_flat (x := x) (y := ⟨c, true⟩) (List.mem_map_of_mem hc)
  rwa [isBlankCode, ← hshown] at hx

theorem exists_flat_cons (x : Cell) : ∃ y ys, x.flat = y :: ys := by
  cases hx : x.isCode with
  | true => exact ⟨x, [], flat_of_isCode hx⟩
  | false =>
    obtain ⟨n, hn⟩ := Nat.exists_eq_succ_of_ne_zero (Nat.pos_iff_ne_zero.1 x.char.utf8Size_pos)
    exact ⟨⟨' ', true⟩, List.replicate n ⟨' ', true⟩, by rw [flat_of_not_isCode hx, hn]; rfl⟩

end Cell

theorem spread_flat : Spread Cell.shown Cell.shown Cell.flat where
  ne_nil := by
    intro x h
    obtain ⟨y, ys, hy⟩ := x.exists_flat_cons
    rw [hy] at h
    cases h
  alike := by
    intro x
    cases hx : x.isCode with
    | true => exact .inl ⟨x, Cell.flat_of_isCode hx, rfl⟩
    | false =>
      refine .inr ⟨.inl (Cell.shown_of_not_isCode hx), fun y hy => .inl ?_⟩
      rw [Cell.shown_of_mem_flat hy, Cell.shown_of_not_isCode hx]

theorem spread_masked : Spread Cell.shown id Cell.masked where
  ne_nil := by
    intro x h
    obtain ⟨y, ys, hy⟩ := x.exists_flat_cons
    rw [Cell.flat, h] at hy
    cases hy
  alike := by
    intro x
    rw [Cell.masked, Cell.shown]
    cases hx : x.isCode with
    | true => exact .inl ⟨x.char, rfl, rfl⟩
    | false => exact .inr ⟨.inl rfl, fun y hy => .inl (List.eq_of_mem_replicate hy)⟩

theorem alike_flat : Alike fun s s' => s' = flat s where
  nil := by
    rintro s' rfl
    rfl
  cons := by
    rintro x r s' rfl hx
    refine ⟨x, flat r, ?_, rfl, fun _ => rfl⟩
    rw [flat_cons, Cell.flat_of_isCode (Cell.isCode_of_not_blank hx)]
    rfl
  blank := by
    rintro x r s' rfl hx
    obtain ⟨y, ys, hy⟩ := x.exists_flat_cons
    refine ⟨y, ys, flat r, by rw [flat_cons, hy], fun z hz => ?_, rfl⟩
    rw [Cell.isBlankCode, Cell.shown_of_mem_flat (hy ▸ hz)]
    exact hx

theorem map_of_sameReading {β : Type} {o o' : Option (β × List Cell)}
    (h : SameReading (fun s s' => s' = flat s) o o') : o' = o.map fun p => (p.1, flat p.2) := by
  cases h with
  | none => rfl
  | some hp => rw [Option.map_some, hp.1, ← hp.2]

theorem ClassHeader.read?_flat (s : List Cell) :
    ClassHeader.read? (flat s) = (ClassHeader.read? s).map fun p => (p.1, flat p.2) :=
  map_of_sameReading (alike_flat.classHeader rfl)

theorem takeWhile_flat (p : Char → Bool) (s : List Cell) :
    (flat s).takeWhile (fun y => p y.shown) = flat (s.takeWhile fun y => p y.shown) := by
  induction s with
  | nil => rfl
  | cons x s ih =>
    rw [flat_cons, List.takeWhile_cons]
    cases hp : p x.shown with
    | true =>
      rw [List.takeWhile_append_of_pos fun y hy => by rw [Cell.shown_of_mem_flat hy, hp], ih]
      rfl
    | false =>
      obtain ⟨y, ys, hy⟩ := x.exists_flat_cons
      have hs := Cell.shown_of_mem_flat (x := x) (y := y) (by rw [hy]; exact List.mem_cons_self ..)
      rw [hy, List.cons_append, List.takeWhile_cons, hs, hp]
      rfl

theorem dropWhile_flat (p : Char → Bool) (s : List Cell) :
    (flat s).dropWhile (fun y => p y.shown) = flat (s.dropWhile fun y => p y.shown) := by
  induction s with
  | nil => rfl
  | cons x s ih =>
    rw [flat_cons, List.dropWhile_cons]
    cases hp : p x.shown with
    | true =>
      rw [List.dropWhile_append_of_pos fun y hy => by rw [Cell.shown_of_mem_flat hy, hp], ih]
      rfl
    | false =>
      obtain ⟨y, ys, hy⟩ := x.exists_flat_cons
      have hs := Cell.shown_of_mem_flat (x := x) (y := y) (by rw [hy]; exact List.mem_cons_self ..)
      rw [hy, List.cons_append, List.dropWhile_cons, hs, hp, if_neg Bool.false_ne_true,
        if_neg Bool.false_ne_true, flat_cons, hy]
      rfl

theorem MethodHeader.signature?_flat (qs : List String) (s : List Cell) :
    MethodHeader.signature? qs (flat s)
      = (MethodHeader.signature? qs s).map fun p => (p.1, flat p.2) := by
  cases s with
  | nil => rfl
  | cons x r =>
    obtain ⟨x', b, hx⟩ := x.exists_flat_cons
    have hshown : ∀ y ∈ x' :: b, y.shown = x.shown :=
      fun y hy => Cell.shown_of_mem_flat (hx ▸ hy)
    have hblank : x'.isBlankCode = x.isBlankCode := by
      rw [Cell.isBlankCode, hshown x' (List.mem_cons_self ..), Cell.isBlankCode]
    rw [flat_cons, hx, List.cons_append, MethodHeader.signature?, MethodHeader.signature?, hblank]
    cases hb : x.isBlankCode with
    | false => rfl
    | true =>
      have hends : ∀ y ∈ b, (!endsSignature y.shown) = true := by
        intro y hy
        rw [hshown y (List.mem_cons_of_mem _ hy)]
        have hne := fun c hc => shown_ne_of_isBlankCode (x := x) hb (c := c) hc
        simp [endsSignature, hne '(' rfl, hne ';' rfl, hne '\x7b' rfl, hne '\x7d' rfl]
      have hmasked : masked (x' :: (b ++ flat (r.takeWhile fun y => !endsSignature y.shown)))
          = masked (x :: r.takeWhile fun y => !endsSignature y.shown) := by
        rw [← List.cons_append, ← hx, ← flat_cons, masked_flat]
      rw [List.dropWhile_append_of_pos hends, List.takeWhile_append_of_pos hends,
        dropWhile_flat (fun c => !endsSignature c), takeWhile_flat (fun c => !endsSignature c),
        hmasked, if_pos rfl, if_pos rfl]
      cases hr : r.dropWhile fun y => !endsSignature y.shown with
      | nil => rfl
      | cons y rest =>
        by_cases hy : y.shown = '('
        · have hcode : y.isCode = true := Cell.isCode_of_not_blank (by rw [Cell.isBlankCode, hy]; rfl)
          rw [flat_cons, Cell.flat_of_isCode hcode]
          simp only [List.singleton_append]
          split_ifs
          · rw [Option.map_some, flat_cons, Cell.flat_of_isCode hcode]
            rfl
          · rfl
        · obtain ⟨y', ys, hys⟩ := y.exists_flat_cons
          have hy' : y'.shown ≠ '(' := by
            rwa [Cell.shown_of_mem_flat (x := y) (by rw [hys]; exact List.mem_cons_self ..)]
          rw [flat_cons, hys, List.cons_append]
          simp only [hy, hy', false_and, if_false]
          rfl

theorem MethodHeader.read?_flat (s : List Cell) :
    MethodHeader.read? (flat s) = (MethodHeader.read? s).map fun p => (p.1, flat p.2) := by
  obtain ⟨hq, hr⟩ := alike_flat.qualifiers MethodHeader.words (by decide)
    (rfl : flat s = flat s)
  have hk := alike_flat.keyword? (w := "function".toList) (by decide) hr
  unfold MethodHeader.read?
  simp only [← hq]
  generalize keyword? "function".toList (ConnectorCatalog.qualifiers words s).2 = o at hk ⊢
  generalize keyword? "function".toList (ConnectorCatalog.qualifiers words (flat s)).2 = o' at hk ⊢
  cases hk with
  | none => rfl
  | some hrr =>
    subst hrr
    exact MethodHeader.signature?_flat _ _

section Scan

variable {η : Type} {read? : List Cell → Option (η × List Cell)}

/-- An occurrence in the masked text. -/
def Occurrence.flat (o : Occurrence η) : Occurrence η :=
  ⟨ConnectorCatalog.flat o.before, o.header, ConnectorCatalog.flat o.rest⟩

/-- The masked form of cells that were passed, right to left. -/
def flatBefore (before : List Cell) : List Cell := (flat before.reverse).reverse

theorem flatBefore_cons (x : Cell) (before : List Cell) :
    flatBefore (x :: before) = x.flat.reverse ++ flatBefore before := by
  simp [flatBefore, flat_append, flat_cons, flat_nil]

theorem atWordStart_flatBefore (before : List Cell) :
    atWordStart (flatBefore before) = atWordStart before := by
  cases before with
  | nil => rfl
  | cons x before =>
    have hne : x.flat.reverse ≠ [] := by
      obtain ⟨y, ys, hy⟩ := x.exists_flat_cons
      simp [hy]
    obtain ⟨y, ys, hy⟩ := List.exists_cons_of_ne_nil hne
    have hmem : y ∈ x.flat := by
      rw [← List.mem_reverse, hy]
      exact List.mem_cons_self ..
    rw [flatBefore_cons, hy, List.cons_append, atWordStart, atWordStart,
      Cell.shown_of_mem_flat hmem]

theorem headerAt_flat
    (hflat : ∀ s, read? (flat s) = (read? s).map fun p => (p.1, flat p.2)) (before s : List Cell) :
    headerAt read? (flatBefore before) (flat s)
      = (headerAt read? before s).map fun p => (p.1, flat p.2) := by
  unfold headerAt
  rw [atWordStart_flatBefore, hflat]
  split <;> rfl

theorem Scanned.pass_blanks {bracket : Char} (hread : HeaderReader read? bracket)
    {bs before s : List Cell} {os : List (Occurrence η)}
    (hbs : ∀ x ∈ bs, x.isBlankCode = true) (h : Scanned read? (bs.reverse ++ before) s os) :
    Scanned read? before (bs ++ s) os := by
  induction bs generalizing before with
  | nil => exact h
  | cons x bs ih =>
    refine .pass (headerAt_of_none (hread.blank _ (hbs x (List.mem_cons_self ..))) _) ?_
    refine ih (fun y hy => hbs y (List.mem_cons_of_mem _ hy)) ?_
    rwa [List.reverse_cons, List.append_assoc] at h

/-- The pass over the masked text takes the same headers. -/
theorem Scanned.flat {bracket : Char} (hread : HeaderReader read? bracket)
    (hbracket : isBlank bracket = false)
    (hflat : ∀ s, read? (flat s) = (read? s).map fun p => (p.1, flat p.2))
    {before s : List Cell} {os : List (Occurrence η)} (h : Scanned read? before s os) :
    Scanned read? (flatBefore before) (flat s) (os.map Occurrence.flat) := by
  induction h with
  | done before => exact .done _
  | @pass before x s os hx hs ih =>
    rw [flatBefore_cons] at ih
    cases hc : x.isCode with
    | true =>
      have hx' := headerAt_flat hflat before (x :: s)
      rw [hx] at hx'
      rw [Cell.flat_of_isCode hc] at ih
      rw [flat_cons, Cell.flat_of_isCode hc] at hx' ⊢
      exact .pass hx' ih
    | false =>
      refine Scanned.pass_blanks hread (fun y hy => ?_) ih
      rw [Cell.isBlankCode, Cell.shown_of_mem_flat hy, Cell.shown_of_not_isCode hc]
      rfl
  | @found before p b r h os hp hh hr ih =>
    obtain ⟨p', b', r', -, hs', ht, hb⟩ := hread.rest (headerAt_eq_some.1 hh).2
    cases ht
    have hcode : b.flat = [b] := by
      refine Cell.flat_of_isCode (Cell.isCode_of_not_blank ?_)
      rw [Cell.isBlankCode, hb]
      exact hbracket
    have hh' := headerAt_flat hflat before (p ++ b :: r)
    have hne : ConnectorCatalog.flat p ≠ [] := by
      obtain ⟨x, p, rfl⟩ := List.exists_cons_of_ne_nil hp
      obtain ⟨y, ys, hy⟩ := x.exists_flat_cons
      simp [flat_cons, hy]
    have hbefore : flatBefore (b :: (p.reverse ++ before))
        = b :: ((ConnectorCatalog.flat p).reverse ++ flatBefore before) := by
      simp [flatBefore, flat_append, flat_cons, flat_nil, hcode]
    rw [hh, Option.map_some, flat_append, flat_cons, hcode, List.singleton_append] at hh'
    rw [hbefore] at ih
    rw [flat_append, flat_cons, hcode, List.singleton_append, List.map_cons, Occurrence.flat,
      flat_cons, hcode, List.singleton_append]
    have := Scanned.found hne hh' ih
    rwa [flatBefore, List.reverse_reverse] at this

theorem occurrences_flat {bracket : Char} (hread : HeaderReader read? bracket)
    (hbracket : isBlank bracket = false)
    (hflat : ∀ s, read? (flat s) = (read? s).map fun p => (p.1, flat p.2)) (s : List Cell) :
    occurrences read? (flat s) = (occurrences read? s).map Occurrence.flat :=
  ((scanned_occurrencesFrom hread [] s).flat hread hbracket hflat).eq.symm

end Scan

theorem classes_flat (s : List Cell) :
    occurrences ClassHeader.read? (flat s)
      = (occurrences ClassHeader.read? s).map Occurrence.flat :=
  occurrences_flat ClassHeader.headerReader (by decide) ClassHeader.read?_flat s

theorem methods_flat (s : List Cell) :
    occurrences MethodHeader.read? (flat s)
      = (occurrences MethodHeader.read? s).map Occurrence.flat :=
  occurrences_flat MethodHeader.headerReader (by decide) MethodHeader.read?_flat s

theorem nesting_flat (s : List Cell) : nesting Cell.shown (flat s) = nesting Cell.shown s :=
  spread_flat.nesting_flatMap s

theorem enclosed?_flat (s : List Cell) :
    enclosed? Cell.shown (flat s) = (enclosed? Cell.shown s).map fun p => (flat p.1, flat p.2) :=
  spread_flat.enclosed?_flatMap s

end ConnectorCatalog
