import ConnectorCatalog.Toml.Parser
import Mathlib.Data.List.Infix
import Mathlib.Tactic.SplitIfs

/-!
# What a recogniser leaves

Whatever a recogniser of a key or value returns is an end of the text that it was given
(`suffix_keyEnd?`, `suffix_readValue?`), and what it has passed is what stands before that
(`before_append`).
-/

namespace ConnectorCatalog.Toml

variable {s r t : List Char}

theorem before_append (a b : List Char) : before (a ++ b) b = a := by
  simp [before]

theorem suffix_cons_of_suffix (c : Char) (h : r <:+ s) : r <:+ c :: s :=
  h.trans (List.suffix_cons c s)

theorem suffix_of_cons {c : Char} (h : c :: r <:+ s) : r <:+ s :=
  (List.suffix_cons c r).trans h

/-! ## Gaps -/

theorem suffix_skipGap (s : List Char) : skipGap s <:+ s := by
  have hblank := List.dropWhile_suffix isGap (l := s)
  unfold skipGap
  split
  · rename_i r heq
    exact (List.dropWhile_suffix _).trans (suffix_of_cons (heq ▸ hblank))
  · exact hblank

theorem suffix_skipLines (inComment : Bool) (s : List Char) : skipLines inComment s <:+ s := by
  fun_induction skipLines inComment s <;> simp_all [suffix_cons_of_suffix]

/-! ## Strings and keys -/

theorem suffix_escape? (h : escape? s = some r) : r <:+ s := by
  unfold escape? at h
  split at h
  · split_ifs at h
    cases h
    exact suffix_cons_of_suffix _ (List.drop_suffix 4 _)
  · split_ifs at h
    cases h
    exact suffix_cons_of_suffix _ (List.drop_suffix 8 _)
  · split_ifs at h
    cases h
    exact List.suffix_cons _ _
  · cases h

theorem suffix_basicEnd? {skip : Nat} (h : basicEnd? skip s = some r) : r <:+ s := by
  fun_induction basicEnd? skip s <;> simp_all [suffix_cons_of_suffix]

theorem suffix_literalEnd? (h : literalEnd? s = some r) : r <:+ s := by
  fun_induction literalEnd? s <;> simp_all [suffix_cons_of_suffix]

theorem suffix_longEnd? {quote : Char} {escapes : Bool} {run skip : Nat}
    (h : longEnd? quote escapes run skip s = some r) : r <:+ s := by
  fun_induction longEnd? quote escapes run skip s <;> simp_all [suffix_cons_of_suffix]

theorem suffix_segmentEnd? (h : segmentEnd? s = some r) : r <:+ s := by
  unfold segmentEnd? at h
  split at h
  · exact suffix_cons_of_suffix _ (suffix_basicEnd? h)
  · exact suffix_cons_of_suffix _ (suffix_literalEnd? h)
  · split_ifs at h
    cases h
    exact suffix_cons_of_suffix _ (List.dropWhile_suffix _)
  · cases h

theorem suffix_segmentsEnd? {fuel : Nat} (h : segmentsEnd? fuel s = some r) : r <:+ s := by
  induction fuel generalizing s with
  | zero =>
    cases h
    exact List.suffix_rfl
  | succ fuel ih =>
    unfold segmentsEnd? at h
    split at h
    · rename_i t heq
      obtain ⟨u, hu, h⟩ := Option.bind_eq_some_iff.1 h
      have hdot : t <:+ s := suffix_of_cons (heq ▸ suffix_skipGap s)
      exact (ih h).trans ((suffix_segmentEnd? hu).trans ((suffix_skipGap t).trans hdot))
    · cases h
      exact List.suffix_rfl

theorem suffix_keyEnd? (h : keyEnd? s = some r) : r <:+ s := by
  obtain ⟨t, ht, h⟩ := Option.bind_eq_some_iff.1 h
  exact (suffix_segmentsEnd? h).trans (suffix_segmentEnd? ht)

/-! ## Numbers -/

theorem suffix_digitsEnd (isDigit : Char → Bool) (s : List Char) : digitsEnd isDigit s <:+ s := by
  fun_induction digitsEnd isDigit s <;> simp_all [suffix_cons_of_suffix]

theorem suffix_digitsEnd? {isDigit : Char → Bool} (h : digitsEnd? isDigit s = some r) : r <:+ s := by
  unfold digitsEnd? at h
  split at h
  · cases h
  · split_ifs at h
    cases h
    exact suffix_cons_of_suffix _ (suffix_digitsEnd _ _)

theorem suffix_skipSign (s : List Char) : skipSign s <:+ s := by
  unfold skipSign
  split <;> simp

theorem suffix_decimalEnd? (h : decimalEnd? s = some r) : r <:+ s := by
  have hsign := suffix_skipSign s
  unfold decimalEnd? at h
  split at h
  · rename_i heq
    cases h
    exact suffix_of_cons (heq ▸ hsign)
  · exact (suffix_digitsEnd? h).trans hsign

theorem suffix_radixEnd? (h : radixEnd? s = some r) : r <:+ s := by
  unfold radixEnd? at h
  split at h
  · exact suffix_cons_of_suffix _ (suffix_cons_of_suffix _ (suffix_digitsEnd? h))
  · exact suffix_cons_of_suffix _ (suffix_cons_of_suffix _ (suffix_digitsEnd? h))
  · exact suffix_cons_of_suffix _ (suffix_cons_of_suffix _ (suffix_digitsEnd? h))
  · cases h

theorem suffix_exponentEnd? (h : exponentEnd? s = some r) : r <:+ s := by
  unfold exponentEnd? at h
  split at h
  · exact suffix_cons_of_suffix _ ((suffix_digitsEnd? h).trans (suffix_skipSign _))
  · exact suffix_cons_of_suffix _ ((suffix_digitsEnd? h).trans (suffix_skipSign _))
  · cases h

theorem suffix_fractionEnd? (h : fractionEnd? s = some r) : r <:+ s := by
  unfold fractionEnd? at h
  split at h
  · exact suffix_cons_of_suffix _ (suffix_digitsEnd? h)
  · cases h

theorem suffix_floatEnd? (h : floatEnd? s = some r) : r <:+ s := by
  have hsign := suffix_skipSign s
  unfold floatEnd? at h
  split at h
  · rename_i heq
    cases h
    exact suffix_of_cons (suffix_of_cons (suffix_of_cons (heq ▸ hsign)))
  · rename_i heq
    cases h
    exact suffix_of_cons (suffix_of_cons (suffix_of_cons (heq ▸ hsign)))
  · obtain ⟨t, ht, h⟩ := Option.bind_eq_some_iff.1 h
    have ht := suffix_decimalEnd? ht
    split at h
    · rename_i u hu
      have hu := (suffix_fractionEnd? hu).trans ht
      cases hexponent : exponentEnd? u with
      | some w =>
        simp only [hexponent, Option.orElse_some, Option.some_inj] at h
        exact h ▸ (suffix_exponentEnd? hexponent).trans hu
      | none =>
        simp only [hexponent, Option.orElse_none, Option.some_inj] at h
        exact h ▸ hu
    · exact (suffix_exponentEnd? h).trans ht

/-! ## Dates and times -/

theorem suffix_twoDigitsEnd? {least greatest : Nat} (h : twoDigitsEnd? least greatest s = some r) :
    r <:+ s := by
  unfold twoDigitsEnd? at h
  split at h
  · dsimp only at h
    split_ifs at h
    cases h
    exact suffix_cons_of_suffix _ (List.suffix_cons _ _)
  · cases h

theorem suffix_charEnd? {c : Char} (h : charEnd? c s = some r) : r <:+ s := by
  unfold charEnd? at h
  split at h
  · split_ifs at h
    cases h
    exact List.suffix_cons _ _
  · cases h

theorem suffix_dateEnd? (h : dateEnd? s = some r) : r <:+ s := by
  unfold dateEnd? at h
  split_ifs at h
  · cases h
  obtain ⟨year, hyear, h⟩ := Option.bind_eq_some_iff.1 h
  cases hyear
  obtain ⟨dash, hdash, h⟩ := Option.bind_eq_some_iff.1 h
  obtain ⟨month, hmonth, h⟩ := Option.bind_eq_some_iff.1 h
  obtain ⟨dash', hdash', h⟩ := Option.bind_eq_some_iff.1 h
  exact (suffix_twoDigitsEnd? h).trans ((suffix_charEnd? hdash').trans
    ((suffix_twoDigitsEnd? hmonth).trans ((suffix_charEnd? hdash).trans (List.dropWhile_suffix _))))

theorem suffix_timeEnd? (h : timeEnd? s = some r) : r <:+ s := by
  obtain ⟨hour, hhour, h⟩ := Option.bind_eq_some_iff.1 h
  obtain ⟨colon, hcolon, h⟩ := Option.bind_eq_some_iff.1 h
  obtain ⟨minute, hminute, h⟩ := Option.bind_eq_some_iff.1 h
  obtain ⟨colon', hcolon', h⟩ := Option.bind_eq_some_iff.1 h
  obtain ⟨second, hsecond, h⟩ := Option.bind_eq_some_iff.1 h
  have hclock : second <:+ s :=
    (suffix_twoDigitsEnd? hsecond).trans ((suffix_charEnd? hcolon').trans
      ((suffix_twoDigitsEnd? hminute).trans
        ((suffix_charEnd? hcolon).trans (suffix_twoDigitsEnd? hhour))))
  refine List.IsSuffix.trans ?_ hclock
  split at h
  · split_ifs at h <;> cases h
    · exact suffix_cons_of_suffix _ (suffix_cons_of_suffix _ (List.dropWhile_suffix _))
    · exact List.suffix_rfl
  · cases h
    exact List.suffix_rfl

theorem suffix_offsetEnd? (h : offsetEnd? s = some r) : r <:+ s := by
  unfold offsetEnd? at h
  split at h
  · cases h
    exact List.suffix_cons _ _
  · cases h
    exact List.suffix_cons _ _
  · split_ifs at h
    obtain ⟨hour, hhour, h⟩ := Option.bind_eq_some_iff.1 h
    obtain ⟨colon, hcolon, h⟩ := Option.bind_eq_some_iff.1 h
    exact suffix_cons_of_suffix _ ((suffix_twoDigitsEnd? h).trans
      ((suffix_charEnd? hcolon).trans (suffix_twoDigitsEnd? hhour)))
  · cases h

theorem suffix_dateTimeEnd? (h : dateTimeEnd? s = some r) : r <:+ s := by
  obtain ⟨date, hdate, h⟩ := Option.map_eq_some_iff.1 h
  subst h
  refine List.IsSuffix.trans ?_ (suffix_dateEnd? hdate)
  split
  · split_ifs
    · split
      · rename_i c _ _ _ u htime
        have htime := suffix_cons_of_suffix c (suffix_timeEnd? htime)
        cases hoffset : offsetEnd? u with
        | some w => exact (suffix_offsetEnd? hoffset).trans htime
        | none => exact htime
      · exact List.suffix_rfl
    · exact List.suffix_rfl
  · exact List.suffix_rfl

/-! ## Values -/

theorem suffix_booleanEnd? (h : booleanEnd? s = some r) : r <:+ s := by
  have hword : ∀ {word : List Char}, word.isPrefixOf? s = some r → r <:+ s :=
    fun h => ⟨_, List.isPrefixOf?_eq_some_iff_append_eq.1 h⟩
  unfold booleanEnd? at h
  cases htrue : "true".toList.isPrefixOf? s with
  | some t =>
    simp only [htrue, Option.orElse_some] at h
    exact hword (htrue.trans h)
  | none =>
    simp only [htrue, Option.orElse_none] at h
    exact hword h

theorem suffix_of_mem_scalarReadings {e : ScalarKind × List Char} (h : e ∈ scalarReadings s) :
    e.2 <:+ s := by
  obtain ⟨⟨kind, rest⟩, hmem, h⟩ := List.mem_filterMap.1 h
  obtain ⟨t, rfl, rfl⟩ := Option.map_eq_some_iff.1 h
  simp only [List.mem_cons, Prod.mk.injEq, List.not_mem_nil, or_false] at hmem
  rcases hmem with ⟨-, h⟩ | ⟨-, h⟩ | ⟨-, h⟩ | ⟨-, h⟩ | ⟨-, h⟩ | ⟨-, h⟩
  · exact suffix_decimalEnd? h.symm
  · exact suffix_radixEnd? h.symm
  · exact suffix_booleanEnd? h.symm
  · exact suffix_floatEnd? h.symm
  · exact suffix_dateTimeEnd? h.symm
  · exact suffix_timeEnd? h.symm

theorem foldl_longerReading_mem (a : ScalarKind × List Char) (rest : List (ScalarKind × List Char)) :
    rest.foldl longerReading a ∈ a :: rest := by
  induction rest generalizing a with
  | nil => exact List.mem_cons_self
  | cons b rest ih =>
    rcases List.mem_cons.1 (ih (longerReading a b)) with h | h
    · rw [List.foldl_cons, h, longerReading]
      split_ifs <;> simp
    · exact List.mem_cons_of_mem _ (List.mem_cons_of_mem _ h)

theorem suffix_scalarEnd? {kind : ScalarKind} (h : scalarEnd? s = some (kind, r)) : r <:+ s := by
  unfold scalarEnd? at h
  split at h
  · cases h
  · rename_i a rest hreadings
    have hmem := foldl_longerReading_mem a rest
    rw [← hreadings, Option.some.inj h] at hmem
    exact suffix_of_mem_scalarReadings hmem

theorem suffix_readScalar? {v : Value} (h : readScalar? s = some (v, r)) : r <:+ s := by
  unfold readScalar? at h
  split at h <;> obtain ⟨e, he, h⟩ := Option.map_eq_some_iff.1 h <;> cases h
  · have := suffix_longEnd? he
    exact suffix_cons_of_suffix _ (suffix_cons_of_suffix _ (suffix_cons_of_suffix _ this))
  · have := suffix_longEnd? he
    exact suffix_cons_of_suffix _ (suffix_cons_of_suffix _ (suffix_cons_of_suffix _ this))
  · exact suffix_cons_of_suffix _ (suffix_basicEnd? he)
  · exact suffix_cons_of_suffix _ (suffix_literalEnd? he)
  · exact suffix_scalarEnd? he

theorem suffix_bindingEnd? (h : bindingEnd? s = some r) : r <:+ s := by
  obtain ⟨t, ht, h⟩ := Option.bind_eq_some_iff.1 h
  obtain ⟨u, hu, h⟩ := Option.bind_eq_some_iff.1 h
  cases h
  exact (suffix_skipGap u).trans ((suffix_charEnd? hu).trans
    ((suffix_skipGap t).trans (suffix_keyEnd? ht)))

/-- The text after a value, its elements or its members, by induction on their number. -/
theorem suffix_nested (fuel : Nat) : ∀ s r : List Char, (valueEnd? fuel s = some r → r <:+ s) ∧
    (elementsEnd? fuel s = some r → r <:+ s) ∧ (membersEnd? fuel s = some r → r <:+ s) := by
  induction fuel with
  | zero => simp [valueEnd?, elementsEnd?, membersEnd?]
  | succ fuel ih =>
    have hgap := suffix_skipGap
    have hlines := suffix_skipLines false
    intro s r
    refine ⟨fun h => ?_, fun h => ?_, fun h => ?_⟩
    · unfold valueEnd? at h
      split at h
      · exact suffix_cons_of_suffix _ (((ih _ _).2.1 h).trans (hlines _))
      · rename_i t
        refine suffix_cons_of_suffix _ (List.IsSuffix.trans ?_ (hgap t))
        split at h
        · rename_i heq
          cases h
          exact heq ▸ List.suffix_cons _ _
        · exact (ih _ _).2.2 h
      · obtain ⟨⟨v, t⟩, ht, rfl⟩ := Option.map_eq_some_iff.1 h
        exact suffix_readScalar? ht
    · unfold elementsEnd? at h
      split at h
      · cases h
        exact List.suffix_cons _ _
      · split at h
        · cases h
        · rename_i t ht
          refine List.IsSuffix.trans (List.IsSuffix.trans ?_ (hlines t)) ((ih _ _).1 ht)
          split at h
          · rename_i heq
            cases h
            exact heq ▸ List.suffix_cons _ _
          · rename_i u heq
            exact heq ▸ suffix_cons_of_suffix _ (((ih _ _).2.1 h).trans (hlines u))
          · cases h
    · unfold membersEnd? at h
      split at h
      · cases h
      · rename_i b hb
        split at h
        · cases h
        · rename_i t ht
          refine List.IsSuffix.trans (List.IsSuffix.trans ?_ (hgap t))
            (((ih _ _).1 ht).trans (suffix_bindingEnd? hb))
          split at h
          · rename_i heq
            cases h
            exact heq ▸ List.suffix_cons _ _
          · rename_i u heq
            exact heq ▸ suffix_cons_of_suffix _ (((ih _ _).2.2 h).trans (hgap u))
          · cases h

theorem suffix_readValue? {v : Value} (h : readValue? s = some (v, r)) : r <:+ s := by
  unfold readValue? at h
  split_ifs at h
  · obtain ⟨t, ht, h⟩ := Option.map_eq_some_iff.1 h
    cases h
    exact (suffix_nested _ _ _).1 ht
  · exact suffix_readScalar? h

end ConnectorCatalog.Toml
