import ConnectorCatalog.Proofs.Concat
import Mathlib.Data.List.DropRight

/-!
# Headers are found without looking ahead

Headers end in a bracket, and none is read across one (`StoppedReader`). So the headers of a text are
those up to a bracket and those behind it (`StoppedReader.occurrences_append`), and a header that ends
in the bracket is found whatever follows.
-/

namespace ConnectorCatalog

/-- Text that is added behind a stop leaves a method header as it is. -/
theorem MethodHeader.read?_append {s : List Cell} (h : ∃ y ∈ s, isStop y.shown = true)
    (t : List Cell) :
    MethodHeader.read? (s ++ t) = (MethodHeader.read? s).map fun p => (p.1, p.2 ++ t) := by
  obtain ⟨hq, hr⟩ := (alike_append t).qualifiers MethodHeader.words (by decide)
    (⟨rfl, h⟩ : s ++ t = s ++ t ∧ ∃ y ∈ s, isStop y.shown = true)
  have hk := (alike_append t).keyword? (w := "function".toList) (by decide) hr
  unfold MethodHeader.read?
  simp only [← hq]
  generalize keyword? "function".toList (ConnectorCatalog.qualifiers words s).2 = o at hk ⊢
  generalize keyword? "function".toList (ConnectorCatalog.qualifiers words (s ++ t)).2 = o' at hk ⊢
  cases hk with
  | none => rfl
  | @some r r' hrr =>
    obtain ⟨rfl, y, hy, hstop⟩ := hrr
    rw [Option.bind_some, Option.bind_some]
    cases r with
    | nil => cases hy
    | cons x r =>
      rw [List.cons_append, MethodHeader.signature?, MethodHeader.signature?]
      cases hx : x.isBlankCode with
      | false => rfl
      | true =>
        -- the stop is behind the blank, so the signature ends before the end of the text
        have hmem : y ∈ r := by
          rcases List.mem_cons.1 hy with rfl | hy
          · exact absurd rfl (shown_ne_of_isBlankCode hx (isBlank_of_isStop hstop))
          · exact hy
        have hne : r.dropWhile (fun y => !endsSignature y.shown) ≠ [] := by
          rw [Ne, List.dropWhile_eq_nil_iff]
          intro hall
          have := hall y hmem
          rw [show endsSignature y.shown = true from hstop] at this
          cases this
        have hlen : ¬ (r.takeWhile fun y => !endsSignature y.shown).length = r.length := by
          intro hlen
          have hall := congrArg List.length
            (List.takeWhile_append_dropWhile (p := fun y : Cell => !endsSignature y.shown) (l := r))
          rw [List.length_append, hlen] at hall
          exact hne (List.eq_nil_of_length_eq_zero (by omega))
        rw [if_pos rfl, if_pos rfl, List.dropWhile_append, List.takeWhile_append, if_neg hlen,
          if_neg (by rwa [List.isEmpty_iff])]
        obtain ⟨z, rest, hrest⟩ := List.exists_cons_of_ne_nil hne
        rw [hrest]
        simp only [List.cons_append]
        by_cases hz : z.shown = '(' ∧
            1 < (masked (x :: r.takeWhile fun y => !endsSignature y.shown)).length
        · rw [if_pos hz, if_pos hz]
          rfl
        · rw [if_neg hz, if_neg hz]
          rfl

section Scan

variable {η : Type} {read? : List Cell → Option (η × List Cell)}

/-- The rest of an occurrence is an end of the text. -/
theorem Scanned.rest_suffix {before s : List Cell} {os : List (Occurrence η)}
    (h : Scanned read? before s os) {o : Occurrence η} (ho : o ∈ os) : o.rest <:+ s := by
  induction h with
  | done before => cases ho
  | pass hx hs ih => exact (ih ho).trans (List.suffix_cons ..)
  | @found before p b r h os hp hh hr ih =>
    rcases List.mem_cons.1 ho with rfl | ho
    · exact List.suffix_append ..
    · exact (ih ho).trans ((List.suffix_cons ..).trans (List.suffix_append ..))

/-- No two occurrences leave the same text. -/
theorem Scanned.eq_of_rest {before s : List Cell} {os : List (Occurrence η)}
    (h : Scanned read? before s os) {o o' : Occurrence η} (ho : o ∈ os) (ho' : o' ∈ os)
    (hrest : o.rest.length = o'.rest.length) : o = o' := by
  induction h with
  | done before => cases ho
  | pass hx hs ih => exact ih ho ho'
  | @found before p b r header os hp hh hr ih =>
    have hlt : ∀ {o : Occurrence η}, o ∈ os → o.rest.length < (b :: r).length := fun ho => by
      have := (hr.rest_suffix ho).length_le
      simp only [List.length_cons]
      omega
    rcases List.mem_cons.1 ho with rfl | ho
    · rcases List.mem_cons.1 ho' with rfl | ho'
      · rfl
      · exact absurd (hlt ho') (Nat.not_lt.2 hrest.le)
    · rcases List.mem_cons.1 ho' with rfl | ho'
      · exact absurd (hlt ho) (Nat.not_lt.2 hrest.ge)
      · exact ih ho ho'

/-- A reader of headers that end in a stop and have none before. -/
structure StoppedReader (read? : List Cell → Option (η × List Cell)) (bracket : Char) : Prop
    extends HeaderReader read? bracket where
  stop : isStop bracket = true
  append : ∀ s t, (∃ y ∈ s, isStop y.shown = true) →
    read? (s ++ t) = (read? s).map fun p => (p.1, p.2 ++ t)

theorem atWordStart_of_isStop {b : Cell} (hb : isStop b.shown = true) (s : List Cell) :
    atWordStart (s ++ [b]).reverse = true := by
  rw [List.reverse_append, List.reverse_singleton, List.singleton_append, atWordStart]
  rcases isStop_cases hb with ((h | h) | h) | h <;> rw [h] <;> decide

namespace StoppedReader

variable {bracket : Char} (hread : StoppedReader read? bracket)

include hread

/-- The headers of a text are those up to a stop and then those behind it. -/
theorem occurrences_append {b : Cell} (hb : isStop b.shown = true) (s t : List Cell) :
    occurrences read? (s ++ b :: t)
      = (occurrences read? (s ++ [b])).map (Occurrence.extend t)
        ++ (occurrences read? t).map (Occurrence.shift (s ++ [b])) := by
  have hfirst := scanned_occurrencesFrom hread.toHeaderReader [] (s ++ [b])
  have hsecond := (scanned_occurrencesFrom hread.toHeaderReader [] t).shift
    (atWordStart_of_isStop hb s)
  rw [List.nil_append, List.reverse_reverse] at hsecond
  have hboth := (hfirst.append (by rwa [List.append_nil]) fun p x r hr => ?_).eq.symm
  · rwa [List.append_assoc, List.singleton_append] at hboth
  · -- the stop is the last cell, so it is left wherever a header begins
    have hlast : (p ++ x :: r).getLast? = some b := by rw [← hr, List.getLast?_concat]
    rw [List.getLast?_append_of_ne_nil _ (List.cons_ne_nil x r)] at hlast
    exact hread.append _ t ⟨b, List.mem_of_getLast? hlast, hb⟩

/-- A header that ends in a stop is found whatever follows the stop. -/
theorem mem_occurrences {s t : List Cell} {b : Cell} (hb : isStop b.shown = true)
    {before : List Cell} {header : η}
    (ho : ⟨before, header, b :: t⟩ ∈ occurrences read? (s ++ b :: t)) :
    ⟨before, header, [b]⟩ ∈ occurrences read? (s ++ [b]) := by
  rw [hread.occurrences_append hb] at ho
  rcases List.mem_append.1 ho with ho | ho
  · obtain ⟨⟨before', header', rest⟩, hmem, he⟩ := List.mem_map.1 ho
    simp only [Occurrence.extend, Occurrence.mk.injEq] at he
    obtain ⟨rfl, rfl, hrest⟩ := he
    obtain rfl : rest = [b] := List.append_cancel_right (by rw [hrest]; rfl)
    exact hmem
  · obtain ⟨⟨before', header', rest⟩, hmem, he⟩ := List.mem_map.1 ho
    simp only [Occurrence.shift, Occurrence.mk.injEq] at he
    have hlen := ((scanned_occurrencesFrom hread.toHeaderReader [] t).rest_suffix hmem).length_le
    rw [he.2.2, List.length_cons] at hlen
    omega

/-- A header that ends in a stop is found with any text behind the stop. -/
theorem mem_occurrences_extend {s : List Cell} {b : Cell} (hb : isStop b.shown = true)
    {o : Occurrence η} (ho : o ∈ occurrences read? (s ++ [b])) (t : List Cell) :
    o.extend t ∈ occurrences read? (s ++ b :: t) := by
  rw [hread.occurrences_append hb]
  exact List.mem_append_left _ (List.mem_map_of_mem ho)

/-- There is no stop in a header. -/
theorem isStop_eq_false {p r : List Cell} {b : Cell} {header : η}
    (h : read? (p ++ b :: r) = some (header, b :: r)) : ∀ x ∈ p, isStop x.shown = false := by
  intro x hx
  by_contra hstop
  rw [Bool.not_eq_false] at hstop
  obtain ⟨p, q, rfl⟩ := List.append_of_mem hx
  have hshort := hread.append (p ++ [x]) (q ++ b :: r) ⟨x, by simp, hstop⟩
  have happ : p ++ [x] ++ (q ++ b :: r) = p ++ x :: q ++ b :: r := by simp
  rw [happ, h, eq_comm, Option.map_eq_some_iff] at hshort
  obtain ⟨⟨header', t⟩, ht, he⟩ := hshort
  obtain ⟨-, b', r', -, -, rfl, -⟩ := hread.rest ht
  have hlen := congrArg List.length (Prod.mk.inj he).2
  simp only [List.length_append, List.length_cons] at hlen
  omega

/-- Of the headers of a text that ends with one, the others end before that begins. -/
theorem ends_before {before q : List Cell} {b : Cell} {header : η}
    (ho : ⟨before, header, [b]⟩ ∈ occurrences read? (before ++ (q ++ [b])))
    {o : Occurrence η} (ho' : o ∈ occurrences read? (before ++ (q ++ [b])))
    (hne : o ≠ ⟨before, header, [b]⟩) :
    ∃ p c r, before = o.before ++ (p ++ c :: r) ∧ o.rest = c :: (r ++ (q ++ [b])) ∧
      c.shown = bracket := by
  have hscanned := scanned_occurrencesFrom hread.toHeaderReader [] (before ++ (q ++ [b]))
  have hheader : ∀ x ∈ q, isStop x.shown = false := by
    obtain ⟨r, hsplit, hr⟩ := hscanned.exists_headerAt ho
    obtain rfl : q ++ [b] = r := List.append_cancel_left hsplit
    exact hread.isStop_eq_false (headerAt_eq_some.1 hr).2
  obtain ⟨p, c, r, hsplit, hrest, hc⟩ := split_of_mem_occurrences hread.toHeaderReader ho'
  have hstop : isStop c.shown = true := hc ▸ hread.stop
  -- the only stop from the header on is its bracket, which no other header leaves
  have hapart : ∀ as, q ++ [b] ≠ as ++ c :: r := by
    intro as has
    rcases r.eq_nil_or_concat' with rfl | ⟨r, y, rfl⟩
    · exact hne (hscanned.eq_of_rest ho' ho (by rw [hrest]; rfl))
    · have hq : q = as ++ c :: r := by
        rw [← List.cons_append, ← List.append_assoc] at has
        exact (List.append_singleton_inj.1 has).1
      rw [hheader c (by simp [hq])] at hstop
      cases hstop
  rw [← List.append_assoc o.before] at hsplit
  rcases List.append_eq_append_iff.1 hsplit with ⟨as, -, hr⟩ | ⟨as, hbefore, hr⟩
  · exact absurd hr (hapart as)
  · rcases as with _ | ⟨y, as⟩
    · exact absurd hr.symm (hapart [])
    · obtain ⟨rfl, rfl⟩ := List.cons.inj hr
      exact ⟨p, c, as, by rw [hbefore, List.append_assoc], hrest, hc⟩

end StoppedReader

end Scan

theorem ClassHeader.stoppedReader : StoppedReader ClassHeader.read? '\x7b' where
  toHeaderReader := ClassHeader.headerReader
  stop := rfl
  append := by
    intro s t hs
    cases s with
    | nil => simp at hs
    | cons x r => exact ClassHeader.read?_append (.inr hs) t

theorem MethodHeader.stoppedReader : StoppedReader MethodHeader.read? '(' where
  toHeaderReader := MethodHeader.headerReader
  stop := rfl
  append := fun _ t hs => MethodHeader.read?_append hs t

end ConnectorCatalog
