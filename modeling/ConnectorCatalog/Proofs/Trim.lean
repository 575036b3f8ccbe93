import ConnectorCatalog.Text.Blank
import Mathlib.Data.List.TakeWhile
import Mathlib.Tactic.SplitIfs

/-!
# Trimmed texts

What may be trimmed stands around a text without changing what is left of it (`trimWhile_surrounded`),
and a text that neither begins nor ends so stays as it is (`trimWhile_eq_self_iff`). Behind a text that
is not all blank no more than blanks are trimmed (`trimEnd_append`).
-/

namespace ConnectorCatalog

section TrimWhile

variable {α : Type _} {p : α → Bool} {a b s : List α}

theorem dropEndWhile_append (hb : ∀ c ∈ b, p c = true) (s : List α) :
    dropEndWhile p (s ++ b) = dropEndWhile p s := by
  rw [dropEndWhile, List.reverse_append, List.dropWhile_append_of_pos (by simpa using hb)]
  rfl

/-- A member at the end is dropped with what follows it, or stays. -/
theorem dropEndWhile_cons (c : α) (s : List α) : dropEndWhile p (c :: s)
    = if dropEndWhile p s = [] ∧ p c = true then [] else c :: dropEndWhile p s := by
  rw [dropEndWhile, dropEndWhile, List.reverse_cons, List.dropWhile_append]
  by_cases hs : s.reverse.dropWhile p = []
  · cases hc : p c <;> simp [hs, hc]
  · simp [hs]

theorem trimWhile_sublist (p : α → Bool) (s : List α) : (trimWhile p s).Sublist s := by
  have hend := (List.dropWhile_sublist p (l := (s.dropWhile p).reverse)).reverse
  rw [List.reverse_reverse] at hend
  exact hend.trans (List.dropWhile_sublist p)

/-- What would be trimmed may stand around a text. -/
theorem trimWhile_surrounded (ha : ∀ c ∈ a, p c = true) (hb : ∀ c ∈ b, p c = true) (s : List α) :
    trimWhile p (a ++ s ++ b) = trimWhile p s := by
  rw [trimWhile, trimWhile, List.append_assoc, List.dropWhile_append_of_pos ha, List.dropWhile_append]
  split_ifs with hs
  · rw [List.isEmpty_iff.1 hs, List.dropWhile_eq_nil_iff.2 hb]
  · exact dropEndWhile_append hb _

theorem dropWhile_eq_self_iff : s.dropWhile p = s ↔ ∀ c ∈ s.head?, p c = false := by
  rw [List.dropWhile_eq_self_iff]
  cases s <;> simp

/-- A text stays as it is exactly if neither its first nor its last member would be trimmed. -/
theorem trimWhile_eq_self_iff :
    trimWhile p s = s ↔ (∀ c ∈ s.head?, p c = false) ∧ ∀ c ∈ s.getLast?, p c = false := by
  have hend : dropEndWhile p s = s ↔ ∀ c ∈ s.getLast?, p c = false := by
    rw [dropEndWhile, List.reverse_eq_iff, dropWhile_eq_self_iff, List.head?_reverse]
  constructor
  · intro h
    have hstart : s.dropWhile p = s := by
      refine (List.dropWhile_suffix p).eq_of_length (Nat.le_antisymm (List.length_dropWhile_le p s) ?_)
      have hle : (dropEndWhile p (s.dropWhile p)).length ≤ (s.dropWhile p).length := by
        rw [dropEndWhile, List.length_reverse]
        exact (List.length_dropWhile_le p _).trans_eq List.length_reverse
      rw [trimWhile] at h
      rwa [h] at hle
    rw [trimWhile, hstart] at h
    exact ⟨dropWhile_eq_self_iff.1 hstart, hend.1 h⟩
  · rintro ⟨hfirst, hlast⟩
    rw [trimWhile, dropWhile_eq_self_iff.2 hfirst, hend.2 hlast]

theorem trimWhile_eq_self (h : ∀ c ∈ s, p c = false) : trimWhile p s = s :=
  trimWhile_eq_self_iff.2
    ⟨fun c hc => h c (List.mem_of_head? hc), fun c hc => h c (List.mem_of_getLast? hc)⟩

/-- Trimming takes nothing away but what is trimmed. -/
theorem countP_trimWhile {q : α → Bool} (h : ∀ c, p c = true → q c = false) (s : List α) :
    (trimWhile p s).countP q = s.countP q := by
  have hdrop : ∀ t : List α, (t.dropWhile p).countP q = t.countP q := fun t => by
    have hfront : (t.takeWhile p).countP q = 0 := by
      refine List.countP_eq_zero.2 fun c hc => ?_
      rw [h c (List.mem_takeWhile_imp hc)]
      exact Bool.false_ne_true
    have hcount := congrArg (List.countP q) (List.takeWhile_append_dropWhile (p := p) (l := t))
    rwa [List.countP_append, hfront, Nat.zero_add] at hcount
  rw [trimWhile, dropEndWhile, List.countP_reverse, hdrop, List.countP_reverse, hdrop]

end TrimWhile

theorem trim_eq (s : List Char) : trim s = trimEnd (trimStart s) := rfl

theorem trimStart_blanks {a : List Char} (ha : ∀ c ∈ a, isBlank c = true) (s : List Char) :
    trimStart (a ++ s) = trimStart s := List.dropWhile_append_of_pos ha

theorem trimStart_eq_nil {a : List Char} (ha : ∀ c ∈ a, isBlank c = true) : trimStart a = [] := by
  rw [← List.append_nil a, trimStart_blanks ha]
  rfl

theorem trimEnd_blanks (s : List Char) {b : List Char} (hb : ∀ c ∈ b, isBlank c = true) :
    trimEnd (s ++ b) = trimEnd s := dropEndWhile_append hb s

theorem trimStart_cons {c : Char} (hc : isBlank c = false) (s : List Char) :
    trimStart (c :: s) = c :: s := by
  rw [trimStart, List.dropWhile_cons, if_neg (by rw [hc]; exact Bool.false_ne_true)]

/-- Only the blanks of what stands in front of a character that is none are trimmed. -/
theorem trimStart_append_of_not_blank {c : Char} (hc : isBlank c = false) (a r : List Char) :
    trimStart (a ++ c :: r) = trimStart a ++ c :: r := by
  have hstart : trimStart (a ++ c :: r)
      = if (trimStart a).isEmpty then trimStart (c :: r) else trimStart a ++ c :: r :=
    List.dropWhile_append
  rw [hstart]
  split_ifs with ha
  · rw [List.isEmpty_iff.1 ha, trimStart_cons hc, List.nil_append]
  · rfl

theorem trimEnd_cons (c : Char) (s : List Char) :
    trimEnd (c :: s) = if trimEnd s = [] ∧ isBlank c = true then [] else c :: trimEnd s :=
  dropEndWhile_cons c s

theorem trimEnd_append (r : List Char) {s : List Char} (hs : trimEnd s ≠ []) :
    trimEnd (r ++ s) = r ++ trimEnd s := by
  induction r with
  | nil => rfl
  | cons c r ih =>
    have hne : r ++ trimEnd s ≠ [] := by simp [hs]
    rw [List.cons_append, trimEnd_cons, ih, if_neg fun h => hne h.1, List.cons_append]

/-- What is trimmed behind a text is not its first character. -/
theorem head?_trim (s : List Char) : (trim s).head? = (trimStart s).head? := by
  rw [trim_eq]
  cases h : trimStart s with
  | nil => rfl
  | cons c r =>
    have hc : isBlank c = false := by
      have := List.head?_dropWhile_not isBlank s
      rw [← trimStart, h] at this
      simpa using this
    rw [trimEnd_cons, if_neg fun h => by simp [hc] at h]
    rfl

/-- A text without blanks around it begins with none. -/
theorem isBlank_of_trim {c : Char} {s : List Char} (h : trim (c :: s) = c :: s) :
    isBlank c = false := by
  refine Bool.eq_false_iff.2 fun hc => ?_
  have hstart : trimStart (c :: s) = trimStart s := by
    rw [trimStart, List.dropWhile_cons, if_pos hc]
    rfl
  have hle : (trimEnd (trimStart s)).length ≤ s.length := by
    rw [trimEnd, dropEndWhile, List.length_reverse]
    refine Nat.le_trans (List.dropWhile_sublist _).length_le ?_
    rw [List.length_reverse]
    exact (List.dropWhile_sublist _).length_le
  rw [trim_eq, hstart] at h
  rw [h, List.length_cons] at hle
  omega

theorem trimEnd_of_not_blank {s : List Char} (hs : ∀ c ∈ s, isBlank c = false) : trimEnd s = s := by
  have hnil : trimEnd s.reverse.reverse = s.reverse.reverse := by
    rw [trimEnd, dropEndWhile, List.reverse_reverse]
    cases h : s.reverse with
    | nil => rfl
    | cons c r =>
      have hc := hs c (List.mem_reverse.1 (by rw [h]; exact List.mem_cons_self ..))
      rw [List.dropWhile_cons, if_neg (by rw [hc]; exact Bool.false_ne_true)]
  rwa [List.reverse_reverse] at hnil

theorem trim_surrounded {a b : List Char} (ha : ∀ c ∈ a, isBlank c = true)
    (hb : ∀ c ∈ b, isBlank c = true) (s : List Char) : trim (a ++ s ++ b) = trim s :=
  trimWhile_surrounded ha hb s

theorem cutAtFirst_append {α : Type _} {p : α → Bool} {a : List α} {c : α}
    (ha : ∀ x ∈ a, p x = false) (hc : p c = true) (b : List α) :
    cutAtFirst p (a ++ c :: b) = some (a, b) := by
  induction a with
  | nil => rw [List.nil_append, cutAtFirst, if_pos hc]
  | cons x a ih =>
    rw [List.cons_append, cutAtFirst, if_neg (by rw [ha x (List.mem_cons_self ..)]; decide),
      ih fun y hy => ha y (List.mem_cons_of_mem _ hy)]
    rfl

/-- The last blank of a text that ends in a word stands before the word. -/
theorem cutAtLast_append {α : Type _} {p : α → Bool} {b : List α} {c : α}
    (hb : ∀ x ∈ b, p x = false) (hc : p c = true) (a : List α) :
    cutAtLast p (a ++ c :: b) = some (a, b) := by
  have hreverse : (a ++ c :: b).reverse = b.reverse ++ c :: a.reverse := by simp
  rw [cutAtLast, hreverse, cutAtFirst_append (by simpa using hb) hc, Option.map_some]
  simp only [List.reverse_reverse]

end ConnectorCatalog
