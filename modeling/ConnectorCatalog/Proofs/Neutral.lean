import ConnectorCatalog.Proofs.Bracket
import ConnectorCatalog.Proofs.Nested

/-!
# Text that a search for a partner passes over

A partner is looked for by counting one kind of brackets. A text with well nested brackets leaves
the count as it was (`neutral_of_wellNested`), so it may be put in place of another such text and
the bracket around it keeps its partner (`enclosed?_replace`).
-/

namespace ConnectorCatalog

variable {α : Type _} {view : α → Char}

/-- A search for a partner passes over the text. -/
def Neutral (view : α → Char) (s : List α) : Prop :=
  ∀ ⦃opening closing : Char⦄, closing? opening = some closing → ∀ ⦃depth : Nat⦄, 0 < depth →
    ∀ r, closeFrom view opening closing depth (s ++ r)
      = (closeFrom view opening closing depth r).map (s.length + ·)

theorem neutral_nil : Neutral view ([] : List α) := by
  intro opening closing _ depth _ r
  simp

theorem Neutral.append {s r : List α} (hs : Neutral view s) (hr : Neutral view r) :
    Neutral view (s ++ r) := by
  intro opening closing hc depth hpos t
  rw [List.append_assoc, hs hc hpos, hr hc hpos, Option.map_map, List.length_append]
  refine congrArg (Option.map · _) (funext fun i => ?_)
  exact (Nat.add_assoc ..).symm

theorem map_length_cons (x : α) (s : List α) (o : Option Nat) :
    (o.map (s.length + ·)).map (· + 1) = o.map ((x :: s).length + ·) := by
  rw [Option.map_map]
  refine congrArg (Option.map · o) (funext fun i => ?_)
  simp only [Function.comp_apply, List.length_cons]
  omega

/-- After what closes pending brackets the count is lower by those of the kind that is counted. -/
theorem closeFrom_append_of_wellNestedFrom {o c : Char} (hoc : closing? o = some c) {s : List α} :
    ∀ {pending : List Char}, wellNestedFrom view pending s = true → ∀ {depth : Nat}, 0 < depth →
    ∀ r, closeFrom view o c (depth + pending.count c) (s ++ r)
      = (closeFrom view o c depth r).map (s.length + ·) := by
  induction s with
  | nil =>
    intro pending h depth _ r
    rw [wellNestedFrom, List.isEmpty_iff] at h
    subst h
    exact neutral_nil hoc ‹_› r
  | cons x s ih =>
    intro pending h depth hpos r
    rw [List.cons_append, closeFrom]
    obtain ⟨c', ho', hs⟩ | ⟨rest, hc', rfl, hs⟩ | ⟨ho', hc', hs⟩ := wellNestedFrom_cons h
    · by_cases hx : view x = o
      · rw [if_pos hx]
        rw [hx, hoc] at ho'
        cases ho'
        have := ih hs hpos r
        rw [List.count_cons_self, ← Nat.add_assoc] at this
        rw [this, map_length_cons]
      · obtain ⟨h1, h2⟩ := closing?_apart hoc ho' hx
        have := ih hs hpos r
        rw [List.count_cons_of_ne h2] at this
        rw [if_neg hx, if_neg h1, this, map_length_cons]
    · rw [if_neg (ne_of_isClosing hoc hc')]
      by_cases hx : view x = c
      · rw [if_pos hx, hx, List.count_cons_self, if_neg (by omega)]
        rw [← Nat.add_assoc, Nat.add_sub_cancel, ih hs hpos r, map_length_cons]
      · rw [if_neg hx, List.count_cons_of_ne hx, ih hs hpos r, map_length_cons]
    · have hxo : view x ≠ o := by
        rintro rfl
        rw [hoc] at ho'
        cases ho'
      have hxc : view x ≠ c := by
        rintro rfl
        rw [isClosing_of_closing? hoc] at hc'
        cases hc'
      rw [if_neg hxo, if_neg hxc, ih hs hpos r, map_length_cons]

theorem neutral_of_wellNested {s : List α} (h : wellNested view s = true) : Neutral view s :=
  fun _ _ hoc _ hpos r => closeFrom_append_of_wellNestedFrom hoc h hpos r

/-- The partner of a bracket stands behind a text that the search passes over. -/
theorem enclosed?_of_neutral {o x : α} (hc : closing? (view o) = some (view x)) {body : List α}
    (hbody : Neutral view body) (after : List α) :
    enclosed? view (o :: (body ++ x :: after)) = some (body, after) := by
  have hx : view x ≠ view o := ne_of_isClosing hc (isClosing_of_closing? hc)
  refine enclosed?_of_closeIndex? ?_
  rw [closeIndex?, hc]
  simp only []
  rw [hbody hc Nat.one_pos, closeFrom, if_neg hx, if_pos rfl, if_pos (Nat.le_refl 1)]
  rfl

/-- A partner that stands behind a text is looked for behind it with a count of its own. -/
theorem closeFrom_append_eq {o c : Char} {s : List α} : ∀ {depth i : Nat} {r : List α}, 0 < depth →
    closeFrom view o c depth (s ++ r) = some i → s.length ≤ i →
    ∃ depth', 0 < depth' ∧ ∀ r, closeFrom view o c depth (s ++ r)
      = (closeFrom view o c depth' r).map (s.length + ·) := by
  induction s with
  | nil =>
    intro depth i r hpos _ _
    exact ⟨depth, hpos, fun r => by simp⟩
  | cons x s ih =>
    intro depth i r hpos h hlen
    have hnext : ∀ {d}, 0 < d → (closeFrom view o c d (s ++ r)).map (· + 1) = some i →
        ∃ depth', 0 < depth' ∧ ∀ r, (closeFrom view o c d (s ++ r)).map (· + 1)
          = (closeFrom view o c depth' r).map ((x :: s).length + ·) := by
      intro d hd hi
      obtain ⟨j, hj, rfl⟩ := Option.map_eq_some_iff.1 hi
      obtain ⟨depth', hpos', heq⟩ := ih hd hj (by simpa using hlen)
      exact ⟨depth', hpos', fun r => by rw [heq, map_length_cons]⟩
    simp only [List.cons_append, closeFrom] at h ⊢
    split_ifs at h ⊢ with h1 h2 h3
    · exact hnext (Nat.succ_pos _) h
    · rw [Option.some_inj] at h
      subst h
      simp at hlen
    · exact hnext (by omega) h
    · exact hnext hpos h

/-- Inside a bracket and its partner, a text may be put in place of another one. -/
theorem enclosed?_replace {o : α} {a s r after : List α} {x : α}
    (h : enclosed? view (o :: (a ++ (s ++ r) ++ x :: after)) = some (a ++ (s ++ r), after))
    (hs : Neutral view s) {s' : List α} (hs' : Neutral view s') :
    enclosed? view (o :: (a ++ (s' ++ r) ++ x :: after)) = some (a ++ (s' ++ r), after) := by
  obtain ⟨o', x', -, -, hi⟩ := enclosed?_eq_some h
  refine enclosed?_of_closeIndex? ?_
  rw [closeIndex?] at hi ⊢
  cases hc : closing? (view o) with
  | none => rw [hc] at hi; cases hi
  | some closing =>
    rw [hc] at hi
    simp only [Option.map_eq_some_iff] at hi ⊢
    obtain ⟨i, hi, hlen⟩ := hi
    obtain rfl : i = (a ++ (s ++ r)).length := by omega
    rw [List.append_assoc] at hi
    obtain ⟨depth, hpos, heq⟩ := closeFrom_append_eq Nat.one_pos hi (by simp)
    rw [heq, List.append_assoc, hs hc hpos] at hi
    rw [List.append_assoc, heq, List.append_assoc, hs' hc hpos]
    cases hr : closeFrom view (view o) closing depth (r ++ x :: after) with
    | none => rw [hr] at hi; cases hi
    | some j =>
      rw [hr] at hi
      simp only [Option.map_some, Option.some_inj, List.length_append] at hi ⊢
      exact ⟨_, rfl, by omega⟩

/-- What a bracket encloses does not depend on what stands behind its partner. -/
theorem enclosed?_behind {o x : α} {body after : List α}
    (h : enclosed? view (o :: (body ++ x :: after)) = some (body, after)) (after' : List α) :
    enclosed? view (o :: (body ++ x :: after')) = some (body, after') := by
  obtain ⟨-, -, -, -, hi⟩ := enclosed?_eq_some h
  refine enclosed?_of_closeIndex? ?_
  rw [closeIndex?] at hi ⊢
  cases hc : closing? (view o) with
  | none => rw [hc] at hi; cases hi
  | some closing =>
    rw [hc] at hi
    simp only [Option.map_eq_some_iff] at hi ⊢
    obtain ⟨i, hi, hlen⟩ := hi
    obtain rfl : i = body.length := by omega
    obtain ⟨depth, -, heq⟩ := closeFrom_append_eq Nat.one_pos hi (Nat.le_refl _)
    -- the partner is the very next member, so no more is looked at
    have hnext : ∀ r, closeFrom view (view o) closing depth (x :: r) = some 0 := by
      intro r
      rw [heq, closeFrom] at hi
      rw [closeFrom]
      split_ifs at hi ⊢ with h1 h2 h3
      · simp at hi
      · rfl
      · simp at hi
      · simp at hi
    exact ⟨_, by rw [heq, hnext, Option.map_some, Nat.add_zero], rfl⟩

section Enclosed

variable {a body after : List α} {x : α}

/-- What a bracket of a well nested text encloses is well nested. -/
theorem wellNested_of_enclosed? {s : List α} (h : wellNested view (a ++ x :: s) = true)
    (hs : enclosed? view (x :: s) = some (body, after)) : wellNested view body = true := by
  obtain ⟨o, y, ho, hclosing, -⟩ := enclosed?_eq_some hs
  obtain ⟨rfl, -⟩ := List.cons.inj ho
  obtain ⟨pending, hp⟩ := exists_pending h
  rw [wellNestedFrom, hclosing] at hp
  obtain ⟨b, z, c, rfl, hz, hb, -⟩ := exists_closed [] hp
  rw [enclosed?_of_neutral (hz ▸ hclosing) (neutral_of_wellNested hb), Option.some_inj] at hs
  exact (Prod.mk.inj hs).1 ▸ hb

/-- Between a bracket of a well nested text and its partner the nesting is not zero. -/
theorem nesting_ne_zero {b t : List α} (h : wellNested view (a ++ x :: (b ++ t)) = true)
    (hx : (closing? (view x)).isSome) (hs : enclosed? view (x :: (b ++ t)) = some (body, after))
    (hle : b.length ≤ body.length) : nesting view (a ++ x :: b) ≠ 0 := by
  intro hzero
  have happ : a ++ x :: (b ++ t) = (a ++ x :: b) ++ t := by simp
  rw [happ] at h
  -- otherwise the partner stands up to here
  have hnested := wellNested_of_nesting h hzero
  obtain ⟨⟨body', after'⟩, hb⟩ : ∃ p, enclosed? view (x :: b) = some p := by
    rw [← Option.isSome_iff_exists, enclosed?, Option.isSome_map]
    exact closeIndex?_isSome hnested hx
  rw [← List.cons_append, enclosed?_append hb] at hs
  obtain ⟨rfl, -⟩ := Prod.mk.inj (Option.some_inj.1 hs)
  obtain ⟨o, y, hsplit, -⟩ := enclosed?_eq_some hb
  obtain ⟨-, rfl⟩ := List.cons.inj hsplit
  rw [List.length_append, List.length_cons] at hle
  omega

end Enclosed

section Blanks

variable {s : List α} (hs : ∀ x ∈ s, isBlank (view x) = true)

theorem neither_of_blank {c : Char} (hc : isBlank c = true) :
    closing? c = none ∧ isClosing c = false := by
  refine ⟨?_, ?_⟩
  · cases h : closing? c with
    | none => rfl
    | some d => rcases closing?_cases h with ⟨rfl, -⟩ | ⟨rfl, -⟩ | ⟨rfl, -⟩ <;> cases hc
  · cases h : isClosing c with
    | false => rfl
    | true =>
      simp only [isClosing, Bool.or_eq_true, beq_iff_eq] at h
      rcases h with (rfl | rfl) | rfl <;> cases hc

include hs

/-- Blanks do not change whether brackets are well nested. -/
theorem wellNestedFrom_insert (a b : List α) (pending : List Char) :
    wellNestedFrom view pending (a ++ (s ++ b)) = wellNestedFrom view pending (a ++ b) := by
  induction a generalizing pending with
  | nil =>
    induction s with
    | nil => rfl
    | cons x s ih =>
      rw [List.forall_mem_cons] at hs
      obtain ⟨ho, hc⟩ := neither_of_blank hs.1
      rw [List.nil_append, List.cons_append, wellNestedFrom, ho, hc]
      exact ih hs.2
  | cons x a ih => simp only [List.cons_append, wellNestedFrom, ih]

theorem nesting_of_blank : nesting view s = 0 := by
  refine nesting_of_wellNested ?_
  have := wellNestedFrom_insert hs [] [] []
  rwa [List.append_nil] at this

end Blanks

end ConnectorCatalog
