import ConnectorCatalog.Proofs.Header

/-!
# Class headers of two texts in a row

No class header goes past a brace, an opening parenthesis or a semicolon. So where a text has one of
these last, blanks apart, its class headers are the same with another text behind it, and the class
headers of the other text are the same where a word may begin after the first (`classes_append`).
-/

namespace ConnectorCatalog

/-- The last cell that is not a blank shows a character past which no header goes. -/
def EndsStopped (s : List Cell) : Prop :=
  ∃ u e b, s = u ++ e :: b ∧ isStop e.shown = true ∧ ∀ x ∈ b, x.isBlankCode = true

/-- What is left of a text that ends in a stop has nothing but blanks or has the stop. -/
theorem EndsStopped.of_append {p r : List Cell} (h : EndsStopped (p ++ r)) :
    (∀ x ∈ r, x.isBlankCode = true) ∨ ∃ x ∈ r, isStop x.shown = true := by
  obtain ⟨u, e, b, hs, he, hb⟩ := h
  obtain ⟨a, rfl, rfl⟩ | ⟨a, rfl, ha⟩ := List.append_eq_append_iff.1 hs
  · exact .inr ⟨e, by simp, he⟩
  · cases a with
    | nil => exact .inr ⟨e, by rw [List.nil_append] at ha; simp [← ha], he⟩
    | cons y a =>
      rw [List.cons_append] at ha
      cases ha
      exact .inl fun x hx => hb x (List.mem_append_right _ hx)

/-- With text behind, a text shows the same up to its first stop. -/
theorem alike_append (t : List Cell) :
    Alike fun s s' => s' = s ++ t ∧ ∃ x ∈ s, isStop x.shown = true where
  nil := by
    rintro s' ⟨-, x, hx, -⟩
    cases hx
  cons := by
    rintro x r s' ⟨rfl, y, hy, hstop⟩ -
    refine ⟨x, r ++ t, rfl, rfl, fun hx => ⟨rfl, y, ?_, hstop⟩⟩
    rcases List.mem_cons.1 hy with rfl | hy
    · rw [hx] at hstop
      cases hstop
    · exact hy
  blank := by
    rintro x r s' ⟨rfl, y, hy, hstop⟩ hx
    refine ⟨x, [], r ++ t, rfl, fun z hz => by rwa [List.mem_singleton.1 hz], rfl, y, ?_, hstop⟩
    rcases List.mem_cons.1 hy with rfl | hy
    · exact absurd rfl (shown_ne_of_isBlankCode hx (isBlank_of_isStop hstop))
    · exact hy

theorem ClassHeader.read?_append {x : Cell} {r : List Cell}
    (h : (∀ y ∈ x :: r, y.isBlankCode = true) ∨ ∃ y ∈ x :: r, isStop y.shown = true)
    (t : List Cell) :
    ClassHeader.read? (x :: r ++ t)
      = (ClassHeader.read? (x :: r)).map fun p => (p.1, p.2 ++ t) := by
  rcases h with hb | hstop
  · have hx := hb x (List.mem_cons_self ..)
    rw [List.cons_append, ClassHeader.headerReader.blank _ hx, ClassHeader.headerReader.blank _ hx]
    rfl
  · have hsame := (alike_append t).classHeader ⟨rfl, hstop⟩
    generalize ClassHeader.read? (x :: r) = o at hsame ⊢
    generalize ClassHeader.read? (x :: r ++ t) = o' at hsame ⊢
    cases hsame with
    | none => rfl
    | @some p p' hp =>
      obtain ⟨h1, h2, -⟩ := hp
      rw [Option.map_some, h1, ← h2]

section Scan

variable {η : Type} {read? : List Cell → Option (η × List Cell)}

/-- An occurrence with text behind. -/
def Occurrence.extend (t : List Cell) (o : Occurrence η) : Occurrence η :=
  ⟨o.before, o.header, o.rest ++ t⟩

/-- An occurrence with text in front. -/
def Occurrence.shift (s : List Cell) (o : Occurrence η) : Occurrence η :=
  ⟨s ++ o.before, o.header, o.rest⟩

/-- A pass over a text goes on with the text behind it, if no header is read across the end. -/
theorem Scanned.append {before s t : List Cell} {os ts : List (Occurrence η)}
    (h : Scanned read? before s os) (ht : Scanned read? (s.reverse ++ before) t ts)
    (hread : ∀ p x r, s = p ++ x :: r →
      read? (x :: r ++ t) = (read? (x :: r)).map fun q => (q.1, q.2 ++ t)) :
    Scanned read? before (s ++ t) (os.map (Occurrence.extend t) ++ ts) := by
  have happend : ∀ before {x r}, read? (x :: r ++ t) = (read? (x :: r)).map
      (fun q => (q.1, q.2 ++ t)) → headerAt read? before (x :: r ++ t)
        = (headerAt read? before (x :: r)).map fun q => (q.1, q.2 ++ t) := by
    intro before x r hr
    unfold headerAt
    rw [hr]
    split <;> rfl
  induction h with
  | done before => exact ht
  | @pass before x s os hx hs ih =>
    refine .pass (s := s ++ t) ?_ (ih ?_ fun p y r hr => hread (x :: p) y r (by rw [hr]; rfl))
    · have := happend before (hread [] x s rfl)
      rwa [hx] at this
    · rwa [List.reverse_cons, List.append_assoc] at ht
  | @found before p b r h os hp hh hr ih =>
    obtain ⟨x, p, rfl⟩ := List.exists_cons_of_ne_nil hp
    have hh' := happend before (hread [] x (p ++ b :: r) rfl)
    rw [List.cons_append] at hh
    rw [hh, Option.map_some, ← List.cons_append, List.append_assoc, List.cons_append] at hh'
    rw [List.append_assoc, List.cons_append]
    refine .found hp hh' (ih ?_ fun q y r' hr' => hread (x :: p ++ b :: q) y r' ?_)
    · simpa using ht
    · rw [hr']
      simp

/-- Text in front where a word may begin changes nothing. -/
theorem Scanned.shift {before t base : List Cell} {ts : List (Occurrence η)}
    (h : Scanned read? before t ts) (hbase : atWordStart base = true) :
    Scanned read? (before ++ base) t (ts.map (Occurrence.shift base.reverse)) := by
  have hword : ∀ before s, headerAt read? (before ++ base) s = headerAt read? before s := by
    intro before s
    cases before with
    | nil =>
      rw [List.nil_append, headerAt, headerAt, hbase]
      rfl
    | cons x before => rfl
  induction h with
  | done before => exact .done _
  | pass hx hs ih => exact .pass (by rwa [hword]) ih
  | @found before p b r h os hp hh hr ih =>
    rw [List.cons_append, List.append_assoc] at ih
    have := Scanned.found hp (by rwa [hword]) ih
    rwa [List.reverse_append] at this

end Scan

/-- The class headers of two texts in a row, when the first has a stop last and ends where a word may
begin. -/
theorem classes_append {s : List Cell} (hs : EndsStopped s) (hword : atWordStart s.reverse = true)
    (t : List Cell) :
    occurrences ClassHeader.read? (s ++ t)
      = (occurrences ClassHeader.read? s).map (Occurrence.extend t)
        ++ (occurrences ClassHeader.read? t).map (Occurrence.shift s) := by
  have hfirst := scanned_occurrencesFrom ClassHeader.headerReader [] s
  have hsecond := (scanned_occurrencesFrom ClassHeader.headerReader [] t).shift hword
  rw [List.nil_append, List.reverse_reverse] at hsecond
  refine (hfirst.append (by rwa [List.append_nil]) fun p x r hr => ?_).eq.symm
  exact ClassHeader.read?_append (EndsStopped.of_append (hr ▸ hs)) t

end ConnectorCatalog
