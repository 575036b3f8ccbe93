import ConnectorCatalog.Connector.Signature
import ConnectorCatalog.Proofs.Pieces

/-!
# Parameters of a list in parts

The parameters of a list are those on both sides of a top-level comma (`parametersOf_append_cut`),
and blanks hold none (`parametersOf_of_blank`). What follows the equals sign of a parameter takes no
part in what is read of it (`ofCells?_default`), so a list keeps its parameters when a text behind
an equals sign gives way to another one that does not move the cuts (`parametersOf_default`).
-/

namespace ConnectorCatalog

theorem parametersOf_nil (docs : Documentation) : parametersOf docs [] = [] := rfl

theorem parametersOf_append_cut (docs : Documentation) {s : List Cell} {x : Cell}
    (hs : typeNesting Cell.shown s = 0) (hx : x.shown = ',') (r : List Cell) :
    parametersOf docs (s ++ x :: r) = parametersOf docs s ++ parametersOf docs r := by
  rw [parametersOf, topPieces_append_cut hs hx (by decide), List.filter_append,
    List.filterMap_append]
  rfl

theorem parametersOf_of_blank (docs : Documentation) {s : List Cell}
    (hs : ∀ x ∈ s, x.isBlankCode = true) : parametersOf docs s = [] := by
  have hall : s.all Cell.isBlankCode = true := List.all_eq_true.2 hs
  rw [parametersOf, (whole_of_blank (by decide) hs).pieces, List.filter_cons_of_neg]
  · rfl
  · rw [hall]
    decide

/-- A piece with a parameter holds this one. -/
theorem parametersOf_of_uncut {docs : Documentation} {s : List Cell} {p : Parameter}
    (hs : topPieces Cell.shown ',' s = [s]) (hblank : s.all Cell.isBlankCode = false)
    (hp : Parameter.ofCells? docs s = some p) : parametersOf docs s = [p] := by
  rw [parametersOf, hs, List.filter_cons_of_pos (by rw [hblank]; rfl), List.filter_nil,
    List.filterMap_cons, hp]
  rfl

variable (docs : Documentation) {declaration pre x x' v : List Cell} {q : Cell}

/-- What follows the equals sign of a parameter takes no part in what is read of it. -/
theorem ofCells?_default (hq : q.shown = '=') (hd : typeNesting Cell.shown declaration = 0)
    (x x' : List Cell) :
    Parameter.ofCells? docs (declaration ++ q :: x)
      = Parameter.ofCells? docs (declaration ++ q :: x') := by
  obtain ⟨first, rest, hpieces⟩ :=
    List.exists_cons_of_ne_nil (topPieces_ne_nil Cell.shown '=' declaration)
  have hread : ∀ x, ∃ more, topPieces Cell.shown '=' (declaration ++ q :: x) = first :: more ∧
      more.isEmpty = false := by
    intro x
    refine ⟨rest ++ topPieces Cell.shown '=' x, ?_, ?_⟩
    · rw [topPieces_append_cut hd hq (by decide), hpieces, List.cons_append]
    · rw [List.isEmpty_eq_false_iff]
      exact List.append_ne_nil_of_right_ne_nil _ (topPieces_ne_nil _ _ _)
  obtain ⟨more, hx, hmore⟩ := hread x
  obtain ⟨more', hx', hmore'⟩ := hread x'
  rw [Parameter.ofCells?, Parameter.ofCells?, hx, hx']
  simp only [hmore, hmore']

/-- The pieces of a list around a text behind an equals sign. -/
theorem exists_topPieces_default (hq : q.shown = '=') (hpre : typeNesting Cell.shown pre = 0)
    (v : List Cell) : ∃ pieces declaration, typeNesting Cell.shown declaration = 0 ∧
      ∀ x, topPieces Cell.shown ',' x = [x] → ∃ rest more,
        topPiecesFrom Cell.shown ',' (typeNesting Cell.shown x) v = rest :: more ∧
        topPieces Cell.shown ',' (pre ++ q :: (x ++ v))
          = pieces ++ (declaration ++ q :: (x ++ rest)) :: more := by
  obtain ⟨pieces, declaration, -, hd, happend⟩ := exists_topPieces_append Cell.shown ',' pre
  refine ⟨pieces, declaration, by rw [hd, hpre], fun x hx => ?_⟩
  obtain ⟨rest, more, hv⟩ := List.exists_cons_of_ne_nil
    (topPiecesFrom_ne_nil Cell.shown ',' (typeNesting Cell.shown x) v)
  refine ⟨rest, more, hv, ?_⟩
  have hstep : typeNestingStep q.shown = 0 := by rw [hq]; rfl
  have hcut : ¬ (q.shown = ',' ∧ typeNestingStep q.shown = 0 ∧ (0 : Int) = 0) := by
    rw [hq]
    decide
  have hxv := topPieces_append_of_uncut hx v
  rw [topPieces, hv] at hxv
  rw [happend, hpre, topPiecesFrom_cons_of_ne hcut, hstep, Int.add_zero, hxv]
  rfl

/-- A list has the same parameters with another text behind an equals sign, if neither text is cut
and both leave the same nesting to what is behind them. -/
theorem parametersOf_default (hq : q.shown = '=') (hpre : typeNesting Cell.shown pre = 0)
    (hx : topPieces Cell.shown ',' x = [x]) (hx' : topPieces Cell.shown ',' x' = [x'])
    (hnesting : v = [] ∨ typeNesting Cell.shown x = typeNesting Cell.shown x') :
    parametersOf docs (pre ++ q :: (x ++ v)) = parametersOf docs (pre ++ q :: (x' ++ v)) := by
  obtain ⟨pieces, declaration, hd, hpieces⟩ := exists_topPieces_default hq hpre v
  obtain ⟨rest, more, hv, hleft⟩ := hpieces x hx
  obtain ⟨rest', more', hv', hright⟩ := hpieces x' hx'
  have hsame : rest = rest' ∧ more = more' := by
    rw [← List.cons.injEq, ← hv, ← hv']
    rcases hnesting with rfl | hnesting
    · rfl
    · rw [hnesting]
  obtain ⟨rfl, rfl⟩ := hsame
  have hfilter : ∀ y, ((declaration ++ q :: y) :: more).filter (fun piece =>
      !piece.all Cell.isBlankCode)
        = (declaration ++ q :: y) :: more.filter fun piece => !piece.all Cell.isBlankCode := by
    refine fun y => List.filter_cons_of_pos ?_
    rw [Bool.not_eq_true', List.all_eq_false]
    refine ⟨q, by simp, ?_⟩
    rw [Cell.isBlankCode, hq]
    decide
  rw [parametersOf, parametersOf, hleft, hright, List.filter_append, List.filter_append, hfilter,
    hfilter, List.filterMap_append, List.filterMap_append, List.filterMap_cons, List.filterMap_cons,
    ofCells?_default docs hq hd]

end ConnectorCatalog
