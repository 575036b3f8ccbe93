import ConnectorCatalog.Text.Blank
import Mathlib.Data.List.Basic

/-!
# Cuts and joins

How the pieces of a text follow from those of its parts, and that cutting at a character and joining
with it undo each other (`joinWith_cutAll`, `cutAll_joinWith`).
-/

namespace ConnectorCatalog

section Cut

variable {α : Type _} {p : α → Bool} {s : List α} {c : α}

theorem cutAll_append_cons (hc : p c = true) (s r : List α) :
    cutAll p (s ++ c :: r) = cutAll p s ++ cutAll p r := by
  induction s with
  | nil => simp [cutAll, hc]
  | cons d s ih =>
    rw [List.cons_append, cutAll, cutAll, ih]
    split
    · rfl
    · cases h : cutAll p s with
      | nil => exact absurd h (cutAll_ne_nil p s)
      | cons piece pieces => rfl

theorem cutAll_eq_singleton (h : ∀ c ∈ s, p c = false) : cutAll p s = [s] := by
  induction s with
  | nil => rfl
  | cons c s ih =>
    rw [cutAll, h c (List.mem_cons_self ..), ih fun d hd => h d (List.mem_cons_of_mem _ hd)]
    rfl

theorem cutAll_cons_of_not (hc : p c = false) (s : List α) :
    cutAll p (c :: s) = (cutAll p s).modifyHead (c :: ·) := by
  rw [cutAll, hc, if_neg Bool.false_ne_true]
  cases h : cutAll p s with
  | nil => exact absurd h (cutAll_ne_nil p s)
  | cons piece pieces => rfl

theorem cutAll_append_of_not {b : List α} (hb : ∀ c ∈ b, p c = false) (s : List α) :
    cutAll p (b ++ s) = (cutAll p s).modifyHead (b ++ ·) := by
  induction b with
  | nil =>
    rw [List.nil_append]
    cases cutAll p s <;> rfl
  | cons c b ih =>
    rw [List.cons_append, cutAll_cons_of_not (hb c (List.mem_cons_self ..)),
      ih fun d hd => hb d (List.mem_cons_of_mem _ hd)]
    cases cutAll p s <;> rfl

/-- What is not cut at makes the last piece longer. -/
theorem exists_cutAll_append {b : List α} (hb : ∀ c ∈ b, p c = false) (s : List α) :
    ∃ front last, cutAll p s = front ++ [last] ∧ cutAll p (s ++ b) = front ++ [last ++ b] := by
  induction s with
  | nil => exact ⟨[], [], rfl, cutAll_eq_singleton hb⟩
  | cons c s ih =>
    obtain ⟨front, last, hs, hsb⟩ := ih
    rw [List.cons_append]
    cases hc : p c with
    | true => exact ⟨[] :: front, last, by simp [cutAll, hc, hs], by simp [cutAll, hc, hsb]⟩
    | false =>
      rw [cutAll_cons_of_not hc, cutAll_cons_of_not hc, hs, hsb]
      cases front with
      | nil => exact ⟨[], c :: last, rfl, rfl⟩
      | cons piece front => exact ⟨(c :: piece) :: front, last, rfl, rfl⟩

theorem of_mem_cutAll {piece : List α} (hpiece : piece ∈ cutAll p s) (hc : c ∈ piece) :
    c ∈ s ∧ p c = false := by
  have hmem : c ∈ (cutAll p s).flatten := List.mem_flatten.2 ⟨piece, hpiece, hc⟩
  rw [flatten_cutAll, List.mem_filter, Bool.not_eq_true'] at hmem
  exact hmem

/-- A text in which each member is replaced by some is cut at the same places, if what is cut at is
replaced by one such member and nothing else by any. -/
theorem cutAll_flatMap {β : Type _} {q : β → Bool} {f : α → List β}
    (hcut : ∀ x ∈ s, p x = true → ∃ y, f x = [y] ∧ q y = true)
    (hkeep : ∀ x ∈ s, p x = false → ∀ y ∈ f x, q y = false) :
    cutAll q (s.flatMap f) = (cutAll p s).map (·.flatMap f) := by
  induction s with
  | nil => rfl
  | cons x s ih =>
    have ih := ih (fun y hy => hcut y (List.mem_cons_of_mem _ hy))
      fun y hy => hkeep y (List.mem_cons_of_mem _ hy)
    rw [List.flatMap_cons]
    cases hx : p x with
    | true =>
      obtain ⟨y, hy, hq⟩ := hcut x (List.mem_cons_self ..) hx
      rw [hy, List.singleton_append, cutAll, cutAll, hx, hq, if_pos rfl, if_pos rfl, ih]
      rfl
    | false =>
      rw [cutAll_append_of_not (hkeep x (List.mem_cons_self ..) hx), cutAll_cons_of_not hx, ih]
      cases cutAll p s with
      | nil => rfl
      | cons piece pieces => simp

end Cut

theorem joinWith_cons {separator t : List Char} {ts : List (List Char)} (h : ts ≠ []) :
    joinWith separator (t :: ts) = t ++ separator ++ joinWith separator ts := by
  cases ts with
  | nil => exact absurd rfl h
  | cons u us => rfl

theorem joinWith_append {separator : List Char} {a b : List (List Char)} (ha : a ≠ []) (hb : b ≠ []) :
    joinWith separator (a ++ b) = joinWith separator a ++ (separator ++ joinWith separator b) := by
  induction a with
  | nil => exact absurd rfl ha
  | cons t ts ih =>
    rw [List.cons_append]
    by_cases hts : ts = []
    · subst hts
      rw [List.nil_append, joinWith_cons hb, List.append_assoc]
      rfl
    · rw [joinWith_cons (by simp [hts]), joinWith_cons hts, ih hts]
      simp

/-- What is cut at a character is whole again with that character between the pieces. -/
theorem joinWith_cutAll (c : Char) (s : List Char) : joinWith [c] (cutAll (· == c) s) = s := by
  induction s with
  | nil => rfl
  | cons d s ih =>
    rw [cutAll]
    split
    · rename_i hd
      rw [joinWith_cons (cutAll_ne_nil _ _), ih, beq_iff_eq.1 hd]
      rfl
    · split
      · rename_i h
        exact absurd h (cutAll_ne_nil _ _)
      · rename_i piece pieces h
        rw [h] at ih
        rw [← ih]
        cases pieces <;> rfl

/-- Texts without a character are what is cut at it between them. -/
theorem cutAll_joinWith {c : Char} {ts : List (List Char)} (hne : ts ≠ []) (h : ∀ t ∈ ts, c ∉ t) :
    cutAll (· == c) (joinWith [c] ts) = ts := by
  have hpiece : ∀ {t : List Char}, c ∉ t → cutAll (· == c) t = [t] := fun ht =>
    cutAll_eq_singleton fun d hd => beq_eq_false_iff_ne.2 fun heq => ht (heq ▸ hd)
  induction ts with
  | nil => exact absurd rfl hne
  | cons t ts ih =>
    have ht := hpiece (h t (List.mem_cons_self ..))
    cases ts with
    | nil => exact ht
    | cons u ts =>
      have hrest := ih (List.cons_ne_nil u ts) fun v hv => h v (List.mem_cons_of_mem _ hv)
      rw [joinWith_cons (List.cons_ne_nil u ts), List.append_assoc, List.singleton_append,
        cutAll_append_cons (p := (· == c)) (beq_self_eq_true c), ht, hrest]
      rfl

end ConnectorCatalog
