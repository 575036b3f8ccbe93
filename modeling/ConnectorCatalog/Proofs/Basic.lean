import Mathlib.Data.List.Forall2
import Mathlib.Data.List.Nodup
import Mathlib.Data.List.Perm.Basic
import Mathlib.Tactic.SplitIfs

/-!
# Results and entries

When a computation that may fail gives a result, and what is found under a key among entries when some
of them are left out, when they come in another order and when their values change.
-/

namespace ConnectorCatalog

section

variable {ε α β : Type _} {x : Except ε α}

theorem bind_eq_ok {f : α → Except ε β} {b : β} :
    x >>= f = .ok b ↔ ∃ a, x = .ok a ∧ f a = .ok b := by
  cases x <;> simp [bind, Except.bind]

theorem bind_eq_error {f : α → Except ε β} {e : ε} :
    x >>= f = .error e ↔ x = .error e ∨ ∃ a, x = .ok a ∧ f a = .error e := by
  cases x <;> simp [bind, Except.bind]

theorem map_eq_ok {f : α → β} {b : β} : f <$> x = .ok b ↔ ∃ a, x = .ok a ∧ f a = b := by
  cases x <;> simp [Functor.map, Except.map]

/-- A list is read if each of its members is. -/
theorem mapM_eq_some_iff {f : α → Option β} {xs : List α} {ys : List β} :
    xs.mapM f = some ys ↔ List.Forall₂ (fun x y => f x = some y) xs ys := by
  induction xs generalizing ys with
  | nil => simp [eq_comm]
  | cons x xs ih =>
    simp only [List.mapM_cons, List.forall₂_cons_left_iff, Option.bind_eq_bind,
      Option.bind_eq_some_iff, ih, Option.pure_def, Option.some_inj]
    constructor
    · rintro ⟨y, hy, ys, hys, rfl⟩
      exact ⟨y, ys, hy, hys, rfl⟩
    · rintro ⟨y, ys, hy, hys, rfl⟩
      exact ⟨y, hy, ys, hys, rfl⟩

end

variable {α β γ : Type _} [BEq α]

theorem lookup_map (f : β → γ) (k : α) :
    ∀ l : List (α × β), (l.map fun e => (e.1, f e.2)).lookup k = (l.lookup k).map f
  | [] => rfl
  | (key, x) :: l => by
    rw [List.map_cons, List.lookup_cons, List.lookup_cons, lookup_map f k l]
    cases k == key <;> rfl

variable [LawfulBEq α]

theorem lookup_cons_eq [DecidableEq α] (k key : α) (x : β) (l : List (α × β)) :
    ((key, x) :: l).lookup k = if k = key then some x else l.lookup k := by
  split_ifs with h
  · rw [h, List.lookup_cons_self]
  · rw [List.lookup_cons, beq_false_of_ne h]

theorem lookup_filter {k : α} {P : α → Bool} (h : P k = true) (l : List (α × β)) :
    (l.filter fun e => P e.1).lookup k = l.lookup k := by
  induction l with
  | nil => rfl
  | cons e l ih =>
    obtain ⟨key, value⟩ := e
    by_cases hkey : k = key
    · subst hkey
      simp [h]
    · have hkey' : (k == key) = false := beq_false_of_ne hkey
      rw [List.lookup_cons, hkey', ← ih, List.filter_cons]
      split
      · rw [List.lookup_cons, hkey']
      · rfl

theorem lookup_eq_of_perm {l l' : List (α × β)} (h : l.Perm l') (hkeys : (l.map Prod.fst).Nodup)
    (k : α) : l.lookup k = l'.lookup k := by
  induction h with
  | nil => rfl
  | cons e _ ih =>
    rw [List.lookup_cons, List.lookup_cons, ih (List.nodup_cons.1 hkeys).2]
  | swap e e' l =>
    have hne : e'.1 ≠ e.1 := fun heq => (List.nodup_cons.1 hkeys).1 (by simp [heq])
    rw [List.lookup_cons, List.lookup_cons, List.lookup_cons, List.lookup_cons]
    -- the key is that of one entry at most
    by_cases hk : k = e.1
    · rw [beq_false_of_ne (hk ▸ hne.symm : k ≠ e'.1)]
    · rw [beq_false_of_ne hk]
  | trans h₁ _ ih₁ ih₂ => rw [ih₁ hkeys, ih₂ ((h₁.map _).nodup_iff.1 hkeys)]

end ConnectorCatalog
