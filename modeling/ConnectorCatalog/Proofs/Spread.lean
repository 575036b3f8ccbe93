import ConnectorCatalog.Proofs.Bracket
import ConnectorCatalog.Proofs.Bytes

/-!
# Brackets of a text that is spread out

Nesting and partners stay what they are when each member of a text is replaced by a run of members
that show the same, or that show spaces and characters outside ASCII in place of such a character
(`Spread`). So they may be found in the bytes of a masked text as well as in its
cells.
-/

namespace ConnectorCatalog

/-- A character that may be spread out: a space or a character outside ASCII. -/
def IsIdle (c : Char) : Prop := c = ' ' ∨ isAscii c = false

/-- Each member becomes one that shows the same, or is idle and becomes a run of idle members. -/
structure Spread {α β : Type _} (view : α → Char) (view' : β → Char) (f : α → List β) : Prop where
  ne_nil : ∀ x, f x ≠ []
  alike : ∀ x, (∃ y, f x = [y] ∧ view' y = view x) ∨
    (IsIdle (view x) ∧ ∀ y ∈ f x, IsIdle (view' y))

theorem IsIdle.ne {c d : Char} (h : IsIdle c) (hd : isAscii d = true) (hs : d ≠ ' ') : c ≠ d := by
  rintro rfl
  rcases h with h | h
  · exact hs h
  · rw [hd] at h
    cases h

theorem IsIdle.nestingStep {c : Char} (h : IsIdle c) : nestingStep c = 0 := by
  simp [ConnectorCatalog.nestingStep, h.ne (d := '{') rfl (by decide),
    h.ne (d := '(') rfl (by decide), h.ne (d := '[') rfl (by decide),
    h.ne (d := '}') rfl (by decide), h.ne (d := ')') rfl (by decide),
    h.ne (d := ']') rfl (by decide)]

theorem IsIdle.typeNestingStep {c : Char} (h : IsIdle c) : typeNestingStep c = 0 := by
  rw [ConnectorCatalog.typeNestingStep, if_neg (h.ne rfl (by decide)),
    if_neg (h.ne rfl (by decide)), h.nestingStep]

theorem IsIdle.closing? {c : Char} (h : IsIdle c) : closing? c = none := by
  rw [ConnectorCatalog.closing?, if_neg (h.ne rfl (by decide)), if_neg (h.ne rfl (by decide)),
    if_neg (h.ne rfl (by decide))]

/-- Both brackets of a kind are ASCII and no space. -/
theorem closing?_eq_some {o c : Char} (h : closing? o = some c) :
    (isAscii o = true ∧ o ≠ ' ') ∧ isAscii c = true ∧ c ≠ ' ' := by
  unfold closing? at h
  split at h
  · rename_i ho
    cases h
    exact ho ▸ by decide
  · split at h
    · rename_i ho
      cases h
      exact ho ▸ by decide
    · split at h
      · rename_i ho
        cases h
        exact ho ▸ by decide
      · cases h

section Idle

variable {α : Type _} {view : α → Char} {b : List α}

theorem nesting_of_idle (hb : ∀ x ∈ b, IsIdle (view x)) : nesting view b = 0 := by
  induction b with
  | nil => rfl
  | cons x b ih =>
    rw [nesting, (hb x (List.mem_cons_self ..)).nestingStep,
      ih fun y hy => hb y (List.mem_cons_of_mem _ hy)]
    rfl

theorem closeFrom_append_of_idle {opening closing : Char}
    (ho : isAscii opening = true ∧ opening ≠ ' ') (hc : isAscii closing = true ∧ closing ≠ ' ')
    (depth : Nat) (r : List α) (hb : ∀ x ∈ b, IsIdle (view x)) :
    closeFrom view opening closing depth (b ++ r)
      = (closeFrom view opening closing depth r).map (b.length + ·) := by
  induction b with
  | nil => simp
  | cons x b ih =>
    have hx := hb x (List.mem_cons_self ..)
    rw [List.cons_append, closeFrom, if_neg (hx.ne ho.1 ho.2), if_neg (hx.ne hc.1 hc.2),
      ih fun y hy => hb y (List.mem_cons_of_mem _ hy), Option.map_map]
    congr 1
    funext i
    simp only [Function.comp_apply, List.length_cons]
    omega

theorem topPiecesFrom_cons_of_ne {separator : Char} {depth : Int} {x : α} {s : List α}
    (h : ¬ (view x = separator ∧ typeNestingStep (view x) = 0 ∧ depth = 0)) :
    topPiecesFrom view separator depth (x :: s)
      = (topPiecesFrom view separator (depth + typeNestingStep (view x)) s).modifyHead (x :: ·) := by
  rw [topPiecesFrom]
  simp only [h, if_false]
  split
  · rename_i hn
    exact absurd hn (topPiecesFrom_ne_nil view separator _ s)
  · rename_i piece pieces hp
    rw [hp]
    rfl

theorem topPiecesFrom_cons_of_cut {separator : Char} {depth : Int} {x : α} {s : List α}
    (h : view x = separator ∧ typeNestingStep (view x) = 0 ∧ depth = 0) :
    topPiecesFrom view separator depth (x :: s)
      = [] :: topPiecesFrom view separator depth s := by
  rw [topPiecesFrom]
  exact if_pos h

end Idle

section Spread

variable {α β : Type _} {view : α → Char} {view' : β → Char} {f : α → List β}

namespace Spread

variable (hf : Spread view view' f)
include hf

theorem nesting_flatMap (s : List α) : nesting view' (s.flatMap f) = nesting view s := by
  induction s with
  | nil => rfl
  | cons x s ih =>
    rw [List.flatMap_cons, nesting_append, ih, nesting]
    congr 1
    rcases hf.alike x with ⟨y, hy, hv⟩ | ⟨hx, hy⟩
    · rw [hy, nesting, nesting, hv]
      exact Int.add_zero _
    · rw [nesting_of_idle hy, hx.nestingStep]

theorem closeFrom_flatMap {opening closing : Char} (ho : isAscii opening = true ∧ opening ≠ ' ')
    (hc : isAscii closing = true ∧ closing ≠ ' ') (depth : Nat) (s : List α) :
    closeFrom view' opening closing depth (s.flatMap f)
      = (closeFrom view opening closing depth s).map fun i => ((s.take i).flatMap f).length := by
  induction s generalizing depth with
  | nil => rfl
  | cons x s ih =>
    have hnext : ∀ d, ((closeFrom view opening closing d s).map
          fun i => ((s.take i).flatMap f).length).map ((f x).length + ·)
        = ((closeFrom view opening closing d s).map (· + 1)).map
            fun i => (((x :: s).take i).flatMap f).length := by
      intro d
      rw [Option.map_map, Option.map_map]
      congr 1
      funext i
      simp [List.take_succ_cons]
    rw [List.flatMap_cons]
    rcases hf.alike x with ⟨y, hy, hv⟩ | ⟨hx, hy⟩
    · have hone : (1 + ·) = fun n : Nat => n + 1 := by
        funext n
        omega
      rw [hy, List.length_singleton, hone] at hnext
      rw [hy, List.singleton_append, closeFrom, closeFrom, hv]
      split_ifs
      · rw [ih, hnext]
      · rfl
      · rw [ih, hnext]
      · rw [ih, hnext]
    · rw [closeFrom_append_of_idle ho hc depth _ hy, ih, hnext, closeFrom,
        if_neg (hx.ne ho.1 ho.2), if_neg (hx.ne hc.1 hc.2)]

theorem closeIndex?_flatMap (s : List α) :
    closeIndex? view' (s.flatMap f)
      = (closeIndex? view s).map fun i => ((s.take i).flatMap f).length := by
  cases s with
  | nil => rfl
  | cons x s =>
    rw [List.flatMap_cons]
    rcases hf.alike x with ⟨y, hy, hv⟩ | ⟨hx, hy⟩
    · rw [hy, List.singleton_append, closeIndex?, closeIndex?, hv]
      cases hc : closing? (view x) with
      | none => rfl
      | some closing =>
        obtain ⟨ho, hcl⟩ := closing?_eq_some hc
        simp only []
        rw [hf.closeFrom_flatMap ho hcl, Option.map_map, Option.map_map]
        congr 1
        funext i
        simp [List.take_succ_cons, hy, Nat.add_comm]
    · obtain ⟨y, ys, hys⟩ := List.exists_cons_of_ne_nil (hf.ne_nil x)
      have hy' := hy y (by rw [hys]; exact List.mem_cons_self ..)
      rw [hys, List.cons_append, closeIndex?, closeIndex?, hy'.closing?, hx.closing?]
      rfl

theorem exists_singleton {x : α} (hx : isAscii (view x) = true ∧ view x ≠ ' ') :
    ∃ y, f x = [y] ∧ view' y = view x := by
  rcases hf.alike x with h | ⟨h, -⟩
  · exact h
  · exact absurd rfl (h.ne hx.1 hx.2)

theorem enclosed?_flatMap (s : List α) :
    enclosed? view' (s.flatMap f)
      = (enclosed? view s).map fun p => (p.1.flatMap f, p.2.flatMap f) := by
  cases h : enclosed? view s with
  | none =>
    rw [enclosed?, Option.map_eq_none_iff] at h
    rw [enclosed?, hf.closeIndex?_flatMap, h]
    rfl
  | some p =>
    obtain ⟨body, after⟩ := p
    obtain ⟨o, x, rfl, hc, hi⟩ := enclosed?_eq_some h
    obtain ⟨ho, hx⟩ := closing?_eq_some hc
    obtain ⟨o', ho', -⟩ := hf.exists_singleton ho
    obtain ⟨x', hx', -⟩ := hf.exists_singleton hx
    have hflat : (o :: (body ++ x :: after)).flatMap f
        = o' :: (body.flatMap f ++ x' :: after.flatMap f) := by simp [ho', hx']
    have hi' := hf.closeIndex?_flatMap (o :: (body ++ x :: after))
    have hlen : (((o :: (body ++ x :: after)).take (body.length + 1)).flatMap f).length
        = (body.flatMap f).length + 1 := by
      rw [List.take_succ_cons, List.take_left, List.flatMap_cons, ho', List.singleton_append,
        List.length_cons]
    rw [hi, Option.map_some, hlen, hflat] at hi'
    rw [hflat, enclosed?_of_closeIndex? hi']
    rfl

end Spread

end Spread

end ConnectorCatalog
