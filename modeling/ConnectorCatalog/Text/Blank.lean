/-!
# Blanks and cuts

The characters with the Unicode property `White_Space`, trimming a text at its ends, and cutting a
list at members or at a phrase. Each cut drops what it cuts at and nothing else
(`cutAtFirst_eq_some`, `flatten_cutAll`).
-/

namespace ConnectorCatalog

/-- The Unicode property `White_Space`. -/
def isBlank (c : Char) : Bool :=
  let n := c.toNat
  (9 ≤ n && n ≤ 13) || n == 0x20 || n == 0x85 || n == 0xA0 || n == 0x1680
    || (0x2000 ≤ n && n ≤ 0x200A) || n == 0x2028 || n == 0x2029 || n == 0x202F || n == 0x205F
    || n == 0x3000

section
variable {α : Type _}

/-- Drops the longest end of `s` all of whose members satisfy `p`. -/
def dropEndWhile (p : α → Bool) (s : List α) : List α :=
  (s.reverse.dropWhile p).reverse

/-- Drops the longest beginning and end of `s` all of whose members satisfy `p`. -/
def trimWhile (p : α → Bool) (s : List α) : List α :=
  dropEndWhile p (s.dropWhile p)

/-- What stands before and after the first member that satisfies `p`. -/
def cutAtFirst (p : α → Bool) : List α → Option (List α × List α)
  | [] => none
  | c :: r => if p c then some ([], r) else (cutAtFirst p r).map fun (a, b) => (c :: a, b)

/-- What stands before and after the last member that satisfies `p`. -/
def cutAtLast (p : α → Bool) (s : List α) : Option (List α × List α) :=
  (cutAtFirst p s.reverse).map fun (a, b) => (b.reverse, a.reverse)

/-- The pieces between the members that satisfy `p`: one more than there are such members. -/
def cutAll (p : α → Bool) : List α → List (List α)
  | [] => [[]]
  | c :: r =>
    if p c then [] :: cutAll p r
    else match cutAll p r with
      | [] => [[c]]
      | piece :: pieces => (c :: piece) :: pieces

/-- What stands before and after the first place where `phrase` is written. -/
def cutAround [BEq α] (phrase : List α) : List α → Option (List α × List α)
  | [] => if phrase.isEmpty then some ([], []) else none
  | c :: r =>
    match phrase.isPrefixOf? (c :: r) with
    | some rest => some ([], rest)
    | none => (cutAround phrase r).map fun (a, b) => (c :: a, b)

theorem cutAtFirst_eq_some {p : α → Bool} {s a b : List α} (h : cutAtFirst p s = some (a, b)) :
    ∃ c, p c = true ∧ s = a ++ c :: b ∧ ∀ x ∈ a, p x = false := by
  induction s generalizing a b with
  | nil => simp [cutAtFirst] at h
  | cons c r ih =>
    by_cases hc : p c
    · simp only [cutAtFirst, hc, if_true, Option.some.injEq, Prod.mk.injEq] at h
      exact ⟨c, hc, by simp [← h.1, ← h.2], by simp [← h.1]⟩
    · simp only [cutAtFirst, hc, Bool.false_eq_true, if_false, Option.map_eq_some_iff,
        Prod.mk.injEq, Prod.exists] at h
      obtain ⟨u, v, hr, rfl, rfl⟩ := h
      obtain ⟨d, hd, hs, hu⟩ := ih hr
      exact ⟨d, hd, by simp [hs], by simpa [hc] using hu⟩

theorem cutAtFirst_eq_none {p : α → Bool} {s : List α} (h : cutAtFirst p s = none) :
    ∀ x ∈ s, p x = false := by
  induction s with
  | nil => simp
  | cons c r ih =>
    by_cases hc : p c
    · simp [cutAtFirst, hc] at h
    · simp only [cutAtFirst, hc, Bool.false_eq_true, if_false, Option.map_eq_none_iff] at h
      intro x hx
      rcases List.mem_cons.1 hx with rfl | hx
      · simpa using hc
      · exact ih h x hx

theorem cutAll_ne_nil (p : α → Bool) (s : List α) : cutAll p s ≠ [] := by
  cases s with
  | nil => simp [cutAll]
  | cons c r =>
    rw [cutAll]
    split
    · simp
    · split <;> simp

/-- The pieces hold the members that do not satisfy `p`, in order. -/
theorem flatten_cutAll (p : α → Bool) (s : List α) :
    (cutAll p s).flatten = s.filter (fun c => !p c) := by
  induction s with
  | nil => rfl
  | cons c r ih =>
    rw [cutAll]
    split
    · rename_i hc
      simp [hc, ih]
    · rename_i hc
      split
      · rename_i h
        exact absurd h (cutAll_ne_nil p r)
      · rename_i piece pieces h
        rw [h] at ih
        simpa [hc] using ih

end

/-- A text without the blanks before it. -/
def trimStart (s : List Char) : List Char := s.dropWhile isBlank

/-- A text without the blanks after it. -/
def trimEnd (s : List Char) : List Char := dropEndWhile isBlank s

/-- A text without the blanks around it. -/
def trim (s : List Char) : List Char := trimWhile isBlank s

/-- The maximal runs of characters that are not blank. -/
def words (s : List Char) : List (List Char) := (cutAll isBlank s).filter (!·.isEmpty)

/-- Joins texts with `separator` between them. -/
def joinWith (separator : List Char) : List (List Char) → List Char
  | [] => []
  | [t] => t
  | t :: ts => t ++ separator ++ joinWith separator ts

end ConnectorCatalog
