import ConnectorCatalog.Source.Bracket
import Mathlib.Tactic.SplitIfs

/-!
# What a partner is

The partner of a bracket stands where it is found, and what stands between the two is enclosed
(`enclosed?_eq_some`). It is found by the text up to it alone, so text may be added behind
(`enclosed?_append`).
-/

namespace ConnectorCatalog

variable {α : Type _} {view : α → Char}

theorem nesting_append (view : α → Char) (s r : List α) :
    nesting view (s ++ r) = nesting view s + nesting view r := by
  induction s with
  | nil => simp [nesting]
  | cons x s ih => rw [List.cons_append, nesting, nesting, ih, Int.add_assoc]

theorem closeFrom_eq_some {opening closing : Char} {depth i : Nat} {s : List α}
    (h : closeFrom view opening closing depth s = some i) :
    ∃ a x r, s = a ++ x :: r ∧ a.length = i ∧ view x = closing := by
  induction s generalizing depth i with
  | nil => cases h
  | cons y s ih =>
    have hnext : ∀ {d}, (closeFrom view opening closing d s).map (· + 1) = some i →
        ∃ a x r, y :: s = a ++ x :: r ∧ a.length = i ∧ view x = closing := by
      intro d hd
      obtain ⟨j, hj, rfl⟩ := Option.map_eq_some_iff.1 hd
      obtain ⟨a, x, r, rfl, rfl, hx⟩ := ih hj
      exact ⟨y :: a, x, r, rfl, rfl, hx⟩
    rw [closeFrom] at h
    split_ifs at h with h1 h2 h3
    · exact hnext h
    · cases h
      exact ⟨[], y, s, rfl, rfl, h2⟩
    · exact hnext h
    · exact hnext h

theorem closeFrom_append {opening closing : Char} {depth i : Nat} {s : List α}
    (h : closeFrom view opening closing depth s = some i) (t : List α) :
    closeFrom view opening closing depth (s ++ t) = some i := by
  induction s generalizing depth i with
  | nil => cases h
  | cons y s ih =>
    have hnext : ∀ {d}, (closeFrom view opening closing d s).map (· + 1) = some i →
        (closeFrom view opening closing d (s ++ t)).map (· + 1) = some i := by
      intro d hd
      obtain ⟨j, hj, rfl⟩ := Option.map_eq_some_iff.1 hd
      rw [ih hj, Option.map_some]
    rw [closeFrom] at h
    rw [List.cons_append, closeFrom]
    split_ifs at h ⊢ with h1 h2 h3
    · exact hnext h
    · exact h
    · exact hnext h
    · exact hnext h

/-- A bracket and its partner, and what stands between and behind. -/
theorem enclosed?_eq_some {s body after : List α} (h : enclosed? view s = some (body, after)) :
    ∃ o x, s = o :: (body ++ x :: after) ∧ closing? (view o) = some (view x) ∧
      closeIndex? view s = some (body.length + 1) := by
  obtain ⟨i, hi, hp⟩ := Option.map_eq_some_iff.1 h
  cases s with
  | nil => cases hi
  | cons o s =>
    rw [closeIndex?] at hi
    cases hc : closing? (view o) with
    | none => rw [hc] at hi; cases hi
    | some closing =>
      rw [hc] at hi
      obtain ⟨j, hj, rfl⟩ := Option.map_eq_some_iff.1 hi
      obtain ⟨a, x, r, rfl, rfl, hx⟩ := closeFrom_eq_some hj
      have hbody : ((o :: (a ++ x :: r)).take (a.length + 1)).drop 1 = a := by simp
      have hafter : (o :: (a ++ x :: r)).drop (a.length + 1 + 1) = r := by simp
      rw [hbody, hafter] at hp
      cases hp
      refine ⟨o, x, rfl, by rw [hc, hx], ?_⟩
      rw [closeIndex?, hc]
      simp only []
      rw [hj, Option.map_some]

/-- Where a partner is found, it stands. -/
theorem closeIndex?_eq_some {s : List α} {i : Nat} (h : closeIndex? view s = some i) :
    ∃ o body x after, s = o :: (body ++ x :: after) ∧ closing? (view o) = some (view x) ∧
      i = body.length + 1 := by
  have he : enclosed? view s = some ((s.take i).drop 1, s.drop (i + 1)) := by
    rw [enclosed?, h, Option.map_some]
  obtain ⟨o, x, hs, hc, hi⟩ := enclosed?_eq_some he
  rw [h, Option.some_inj] at hi
  exact ⟨o, _, x, _, hs, hc, hi⟩

theorem enclosed?_of_closeIndex? {o x : α} {body after : List α}
    (h : closeIndex? view (o :: (body ++ x :: after)) = some (body.length + 1)) :
    enclosed? view (o :: (body ++ x :: after)) = some (body, after) := by
  rw [enclosed?, h]
  simp

/-- A text has no partner for its first member, or it encloses what stands before the partner. -/
theorem enclosed?_cases (view : α → Char) (s : List α) :
    (closeIndex? view s = none ∧ enclosed? view s = none) ∨
    ∃ o body x after, s = o :: (body ++ x :: after) ∧ closing? (view o) = some (view x) ∧
      closeIndex? view s = some (body.length + 1) ∧ enclosed? view s = some (body, after) := by
  cases h : enclosed? view s with
  | none => exact .inl ⟨Option.map_eq_none_iff.1 h, rfl⟩
  | some p =>
    obtain ⟨o, x, hs, hc, hi⟩ := enclosed?_eq_some h
    exact .inr ⟨o, p.1, x, p.2, hs, hc, hi, rfl⟩

theorem closeIndex?_append {s : List α} {i : Nat} (h : closeIndex? view s = some i) (t : List α) :
    closeIndex? view (s ++ t) = some i := by
  cases s with
  | nil => cases h
  | cons o s =>
    rw [closeIndex?] at h
    rw [List.cons_append, closeIndex?]
    cases hc : closing? (view o) with
    | none => rw [hc] at h; cases h
    | some closing =>
      rw [hc] at h
      obtain ⟨j, hj, rfl⟩ := Option.map_eq_some_iff.1 h
      simp only []
      rw [closeFrom_append hj t, Option.map_some]

/-- What a partner encloses does not depend on the text behind it. -/
theorem enclosed?_append {s body after : List α} (h : enclosed? view s = some (body, after))
    (t : List α) : enclosed? view (s ++ t) = some (body, after ++ t) := by
  obtain ⟨o, x, rfl, -, hi⟩ := enclosed?_eq_some h
  have hi' := closeIndex?_append hi t
  rw [List.cons_append, List.append_assoc, List.cons_append] at hi' ⊢
  exact enclosed?_of_closeIndex? hi'

end ConnectorCatalog
