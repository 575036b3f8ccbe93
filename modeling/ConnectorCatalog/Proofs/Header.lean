import ConnectorCatalog.Proofs.Reading

/-!
# Where headers are found

A reader of headers takes a beginning of the text, never an empty one, and leaves the bracket that
ends the header; nothing is read where a blank stands (`HeaderReader`). The headers of a text are
then the outcome of one pass from left to right that either passes a cell or takes a whole header
(`Scanned`), and this pass is unique (`Scanned.eq`).
-/

namespace ConnectorCatalog

theorem suffix_of_keyword? {w : List Char} {s r : List Cell} (h : keyword? w s = some r) :
    r <:+ s := by
  induction w generalizing s with
  | nil =>
    rw [keyword?] at h
    cases h
    exact List.suffix_refl _
  | cons c w ih =>
    cases s with
    | nil => cases h
    | cons x s =>
      rw [keyword?] at h
      split at h
      · exact (ih h).trans (List.suffix_cons ..)
      · cases h

theorem suffix_afterBlanks (s : List Cell) : afterBlanks s <:+ s := List.dropWhile_suffix _

theorem suffix_of_keywordBlanks? {w : List Char} {s r : List Cell}
    (h : keywordBlanks? w s = some r) : r <:+ s := by
  unfold keywordBlanks? at h
  split at h
  · rename_i x t hk
    split at h
    · cases h
      exact (suffix_afterBlanks t).trans ((List.suffix_cons ..).trans (suffix_of_keyword? hk))
    · cases h
  · cases h

theorem suffix_of_oneOf? {ws : List String} {s r : List Cell} {w : String}
    (h : oneOf? ws s = some (w, r)) : r <:+ s := by
  obtain ⟨v, -, hv⟩ := List.exists_of_findSome?_eq_some h
  obtain ⟨t, ht, he⟩ := Option.map_eq_some_iff.1 hv
  simp only [Prod.mk.injEq] at he
  exact he.2 ▸ suffix_of_keywordBlanks? ht

theorem suffix_qualifiers (ws : List String) (s : List Cell) : (qualifiers ws s).2 <:+ s := by
  induction hn : s.length using Nat.strongRecOn generalizing s with
  | _ n ih =>
    cases h : oneOf? ws s with
    | none =>
      have hrest : (qualifiers ws s).2 = s := by rw [qualifiers_of_none h]
      exact hrest.symm ▸ List.suffix_refl s
    | some p =>
      obtain ⟨w, r⟩ := p
      rw [qualifiers_of_some h]
      exact (ih r.length (hn ▸ length_of_oneOf? h) r rfl).trans (suffix_of_oneOf? h)

theorem length_qualifiers_lt (ws : List String) (s : List Cell) (h : (qualifiers ws s).1 ≠ []) :
    (qualifiers ws s).2.length < s.length := by
  cases ho : oneOf? ws s with
  | none =>
    rw [qualifiers_of_none ho] at h
    exact absurd rfl h
  | some p =>
    obtain ⟨w, r⟩ := p
    rw [qualifiers_of_some ho]
    exact Nat.lt_of_le_of_lt (suffix_qualifiers ws r).length_le (length_of_oneOf? ho)

theorem keyword?_of_blank {w : List Char} (hw : IsKeyword w) (hne : w ≠ []) {x : Cell}
    (hx : x.isBlankCode = true) (s : List Cell) : keyword? w (x :: s) = none := by
  cases w with
  | nil => exact absurd rfl hne
  | cons c w => rw [keyword?, if_neg (shown_ne_of_isBlankCode hx (hw c (List.mem_cons_self ..)).1)]

theorem qualifiers_of_blank {ws : List String} (hws : ∀ w ∈ ws, IsKeyword w.toList ∧ w.toList ≠ [])
    {x : Cell} (hx : x.isBlankCode = true) (s : List Cell) :
    qualifiers ws (x :: s) = ([], x :: s) := by
  refine qualifiers_of_none ?_
  rw [oneOf?, List.findSome?_eq_none_iff]
  intro w hw
  obtain ⟨h1, h2⟩ := hws w hw
  rw [keywordBlanks?, keyword?_of_blank h1 h2 hx]
  rfl

/-- A reader takes some cells, leaves the bracket that ends a header, and reads nothing at a blank. -/
structure HeaderReader {η : Type} (read? : List Cell → Option (η × List Cell)) (bracket : Char) :
    Prop where
  rest : ∀ {s h t}, read? s = some (h, t) →
    ∃ p b r, p ≠ [] ∧ s = p ++ b :: r ∧ t = b :: r ∧ b.shown = bracket
  blank : ∀ {x} s, x.isBlankCode = true → read? (x :: s) = none

theorem exists_before {s r : List Cell} {b : Cell} (hs : b :: r <:+ s)
    (hlt : (b :: r).length < s.length) : ∃ p, p ≠ [] ∧ s = p ++ b :: r := by
  obtain ⟨p, rfl⟩ := hs
  refine ⟨p, ?_, rfl⟩
  rintro rfl
  exact Nat.lt_irrefl _ hlt

theorem ClassHeader.rest_of_brace? {h h' : ClassHeader} {s t : List Cell}
    (hs : h.brace? s = some (h', t)) : ∃ b r, t = b :: r ∧ b.shown = '\x7b' ∧ t <:+ s := by
  unfold ClassHeader.brace? at hs
  split at hs
  · rename_i y rest hy
    split at hs
    · rename_i hbrace
      cases hs
      exact ⟨y, rest, rfl, hbrace, hy ▸ suffix_afterBlanks s⟩
    · cases hs
  · cases hs

theorem ClassHeader.rest_of_name? {qs : List String} {h : ClassHeader} {s t : List Cell}
    (hs : ClassHeader.name? qs s = some (h, t)) :
    ∃ b r, t = b :: r ∧ b.shown = '\x7b' ∧ t <:+ s := by
  cases s with
  | nil => cases hs
  | cons x s =>
    rw [ClassHeader.name?] at hs
    split at hs
    · obtain ⟨b, r, ht, hb, hsuf⟩ := rest_of_brace? hs
      exact ⟨b, r, ht, hb, hsuf.trans ((List.dropWhile_suffix _).trans (List.suffix_cons ..))⟩
    · cases hs

theorem ClassHeader.headerReader : HeaderReader ClassHeader.read? '\x7b' where
  rest := by
    intro s h t hs
    unfold ClassHeader.read? at hs
    have hsuf := suffix_qualifiers ClassHeader.words s
    have hlt := length_qualifiers_lt ClassHeader.words s
    split at hs
    · cases hs
    · rename_i q qs r hq
      rw [hq] at hsuf hlt
      obtain ⟨u, hk, hu⟩ := Option.bind_eq_some_iff.1 hs
      obtain ⟨b, r', rfl, hb, hrest⟩ := rest_of_name? hu
      have hrest' := hrest.trans (suffix_of_keywordBlanks? hk)
      obtain ⟨p, hp, rfl⟩ := exists_before (hrest'.trans hsuf)
        (Nat.lt_of_le_of_lt hrest'.length_le (hlt (by simp)))
      exact ⟨p, b, r', hp, rfl, rfl, hb⟩
  blank := by
    intro x s hx
    rw [ClassHeader.read?, qualifiers_of_blank (by decide) hx]

theorem MethodHeader.rest_of_signature? {qs : List String} {h : MethodHeader} {s t : List Cell}
    (hs : MethodHeader.signature? qs s = some (h, t)) :
    ∃ b r, t = b :: r ∧ b.shown = '(' ∧ t <:+ s := by
  cases s with
  | nil => cases hs
  | cons x s =>
    rw [MethodHeader.signature?] at hs
    split at hs
    · split at hs
      · rename_i y rest hy
        simp only at hs
        split at hs
        · rename_i hparen
          cases hs
          refine ⟨y, rest, rfl, hparen.1, ?_⟩
          rw [← hy]
          exact (List.dropWhile_suffix _).trans (List.suffix_cons ..)
        · cases hs
      · cases hs
    · cases hs

theorem MethodHeader.headerReader : HeaderReader MethodHeader.read? '(' where
  rest := by
    intro s h t hs
    obtain ⟨u, hk, hu⟩ := Option.bind_eq_some_iff.1 hs
    obtain ⟨b, r, rfl, hb, hrest⟩ := rest_of_signature? hu
    have hsuf := suffix_qualifiers MethodHeader.words s
    have hlen := length_of_keyword? hk
    have hle := hsuf.length_le
    have hrle := hrest.length_le
    obtain ⟨p, hp, rfl⟩ := exists_before (hrest.trans ((suffix_of_keyword? hk).trans hsuf)) (by
      have : 0 < "function".toList.length := by decide
      omega)
    exact ⟨p, b, r, hp, rfl, rfl, hb⟩
  blank := by
    intro x s hx
    rw [MethodHeader.read?, qualifiers_of_blank (by decide) hx]
    simp only
    rw [keyword?_of_blank (by decide) (by decide) hx]
    rfl

section Scan

variable {η : Type} {read? : List Cell → Option (η × List Cell)}

/-- The header that begins at `s`, if a word may begin there; `before` is what was passed, right to
left. -/
def headerAt (read? : List Cell → Option (η × List Cell)) (before s : List Cell) :
    Option (η × List Cell) :=
  if atWordStart before then read? s else none

theorem headerAt_of_none {s : List Cell} (h : read? s = none) (before : List Cell) :
    headerAt read? before s = none := by
  unfold headerAt
  split
  · exact h
  · rfl

theorem headerAt_eq_some {before s : List Cell} {p : η × List Cell} :
    headerAt read? before s = some p ↔ atWordStart before = true ∧ read? s = some p := by
  unfold headerAt
  split
  · rename_i hw
    exact ⟨fun h => ⟨hw, h⟩, And.right⟩
  · rename_i hw
    exact ⟨nofun, fun h => absurd h.1 hw⟩

/-- One pass over `s` from left to right: a cell at which no header begins is passed, and a header is
taken with its bracket. -/
inductive Scanned (read? : List Cell → Option (η × List Cell)) :
    List Cell → List Cell → List (Occurrence η) → Prop
  | done (before : List Cell) : Scanned read? before [] []
  | pass {before : List Cell} {x : Cell} {s : List Cell} {os : List (Occurrence η)}
      (hx : headerAt read? before (x :: s) = none) (hs : Scanned read? (x :: before) s os) :
      Scanned read? before (x :: s) os
  | found {before p : List Cell} {b : Cell} {r : List Cell} {h : η} {os : List (Occurrence η)}
      (hp : p ≠ []) (hh : headerAt read? before (p ++ b :: r) = some (h, b :: r))
      (hr : Scanned read? (b :: (p.reverse ++ before)) r os) :
      Scanned read? before (p ++ b :: r) (⟨before.reverse, h, b :: r⟩ :: os)

theorem occurrencesFrom_skip (p before r : List Cell) :
    occurrencesFrom read? before p.length (p ++ r)
      = occurrencesFrom read? (p.reverse ++ before) 0 r := by
  induction p generalizing before with
  | nil => rfl
  | cons x p ih =>
    rw [List.length_cons, List.cons_append, occurrencesFrom, ih, List.reverse_cons,
      List.append_assoc]
    rfl

theorem occurrencesFrom_of_none {before : List Cell} {x : Cell} {s : List Cell}
    (h : headerAt read? before (x :: s) = none) :
    occurrencesFrom read? before 0 (x :: s) = occurrencesFrom read? (x :: before) 0 s := by
  unfold headerAt at h
  rw [occurrencesFrom, h]

theorem occurrencesFrom_of_some {before p : List Cell} {b : Cell} {r : List Cell} {h : η}
    (hp : p ≠ []) (hh : headerAt read? before (p ++ b :: r) = some (h, b :: r)) :
    occurrencesFrom read? before 0 (p ++ b :: r) = ⟨before.reverse, h, b :: r⟩
      :: occurrencesFrom read? (b :: (p.reverse ++ before)) 0 r := by
  cases p with
  | nil => exact absurd rfl hp
  | cons x p =>
    have hskip : (p ++ b :: r).length - (b :: r).length + 1 = (p ++ [b]).length := by
      simp only [List.length_append, List.length_cons, List.length_nil]
      omega
    have happ : p ++ b :: r = p ++ [b] ++ r := by simp
    unfold headerAt at hh
    rw [List.cons_append] at hh ⊢
    rw [occurrencesFrom, hh]
    simp only [hskip]
    rw [happ, occurrencesFrom_skip]
    simp

theorem scanned_occurrencesFrom {bracket : Char} (hread : HeaderReader read? bracket) :
    ∀ before s : List Cell, Scanned read? before s (occurrencesFrom read? before 0 s) := by
  intro before s
  induction hn : s.length using Nat.strongRecOn generalizing before s with
  | _ n ih =>
    cases s with
    | nil =>
      rw [occurrencesFrom]
      exact .done before
    | cons x s =>
      cases h : headerAt read? before (x :: s) with
      | none =>
        rw [occurrencesFrom_of_none h]
        exact .pass h (ih s.length (hn ▸ Nat.lt_succ_self _) _ _ rfl)
      | some q =>
        obtain ⟨header, t⟩ := q
        obtain ⟨p, b, r, hp, hs, rfl, -⟩ := hread.rest (headerAt_eq_some.1 h).2
        rw [hs] at h hn ⊢
        rw [occurrencesFrom_of_some hp h]
        refine .found hp h (ih r.length ?_ _ _ rfl)
        rw [← hn, List.length_append, List.length_cons]
        omega

/-- There is one pass over a text. -/
theorem Scanned.eq {before s : List Cell} {os : List (Occurrence η)}
    (h : Scanned read? before s os) : os = occurrencesFrom read? before 0 s := by
  induction h with
  | done before => rw [occurrencesFrom]
  | pass hx hs ih => rw [occurrencesFrom_of_none hx, ih]
  | found hp hh hr ih => rw [occurrencesFrom_of_some hp hh, ih]

/-- A header that was taken is written between what stands before it and its bracket. -/
theorem Scanned.split {bracket : Char} (hread : HeaderReader read? bracket) {before s : List Cell}
    {os : List (Occurrence η)} (h : Scanned read? before s os) {o : Occurrence η} (ho : o ∈ os) :
    ∃ p b r, before.reverse ++ s = o.before ++ (p ++ b :: r) ∧ o.rest = b :: r ∧
      b.shown = bracket := by
  induction h with
  | done before => cases ho
  | @pass before x s os hx hs ih =>
    obtain ⟨p, b, r, hsplit, hrest⟩ := ih ho
    refine ⟨p, b, r, ?_, hrest⟩
    rw [← hsplit, List.reverse_cons, List.append_assoc]
    rfl
  | @found before p b r h os hp hh hr ih =>
    rcases List.mem_cons.1 ho with rfl | ho
    · obtain ⟨p', b', r', -, -, ht, hb⟩ := hread.rest (headerAt_eq_some.1 hh).2
      cases ht
      exact ⟨p, b, r, rfl, rfl, hb⟩
    · obtain ⟨p', b', r', hsplit, hrest⟩ := ih ho
      refine ⟨p', b', r', ?_, hrest⟩
      rw [← hsplit, List.reverse_cons, List.reverse_append, List.reverse_reverse]
      simp

theorem split_of_mem_occurrences {bracket : Char} (hread : HeaderReader read? bracket)
    {s : List Cell} {o : Occurrence η} (ho : o ∈ occurrences read? s) :
    ∃ p b r, s = o.before ++ (p ++ b :: r) ∧ o.rest = b :: r ∧ b.shown = bracket :=
  (scanned_occurrencesFrom hread [] s).split hread ho

/-- A header that was taken is read where a word may begin. -/
theorem Scanned.exists_headerAt {before s : List Cell} {os : List (Occurrence η)}
    (h : Scanned read? before s os) {o : Occurrence η} (ho : o ∈ os) :
    ∃ r, before.reverse ++ s = o.before ++ r ∧
      headerAt read? o.before.reverse r = some (o.header, o.rest) := by
  induction h with
  | done before => cases ho
  | @pass before x s os hx hs ih =>
    obtain ⟨r, hsplit, hr⟩ := ih ho
    exact ⟨r, by rw [← hsplit]; simp, hr⟩
  | @found before p b r h os hp hh hr ih =>
    rcases List.mem_cons.1 ho with rfl | ho
    · exact ⟨p ++ b :: r, rfl, by rwa [List.reverse_reverse]⟩
    · obtain ⟨r', hsplit, hr'⟩ := ih ho
      exact ⟨r', by rw [← hsplit]; simp, hr'⟩

end Scan

end ConnectorCatalog
