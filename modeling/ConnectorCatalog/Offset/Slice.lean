import ConnectorCatalog.Text.Blank
import ConnectorCatalog.Text.Utf8

/-!
# Checked slices

Texts and their UTF-8 bytes, read by byte offsets. Each step that can go wrong is checked: a range
may run backwards or past the end, an offset may lie inside a character, an index may be too large,
a count may fall below zero or leave 32 bits, bytes may not be UTF-8. A slice holds what stands
between its two offsets, and exists exactly if characters begin or end at both (`slice_eq_ok_iff`).
-/

namespace ConnectorCatalog

/-- What can go wrong where texts are read by byte offsets. -/
inductive Fault
  /-- A range runs backwards or past the end. -/
  | range (first last size : Nat)
  /-- An offset lies inside a character. -/
  | boundary (offset : Nat)
  /-- There is nothing at an index. -/
  | index (i size : Nat)
  /-- A count falls below zero. -/
  | underflow
  /-- A count does not fit 32 bits. -/
  | overflow
  /-- Bytes are not the UTF-8 form of a text. -/
  | malformed
  /-- Two lists that are read side by side differ in length. -/
  | lengths (left right : Nat)
deriving DecidableEq, Repr

/-- The text with some bytes. -/
def textOfBytes (bytes : List UInt8) : Except Fault (List Char) :=
  match String.fromUTF8? bytes.toByteArray with
  | some text => .ok text.toList
  | none => .error .malformed

/-- What stands before and after a byte offset at which a character begins or the text ends. -/
def cutAtOffset? : Nat → List Char → Option (List Char × List Char)
  | 0, t => some ([], t)
  | _ + 1, [] => none
  | n + 1, c :: t =>
    if c.utf8Size ≤ n + 1 then
      (cutAtOffset? (n + 1 - c.utf8Size) t).map fun (a, b) => (c :: a, b)
    else none

/-- The text from byte offset `first` up to byte offset `last`. -/
def slice (t : List Char) (first last : Nat) : Except Fault (List Char) :=
  if last < first ∨ byteLength t < last then .error (.range first last (byteLength t))
  else match cutAtOffset? last t with
    | none => .error (.boundary last)
    | some (before, _) =>
      match cutAtOffset? first before with
      | none => .error (.boundary first)
      | some (_, r) => .ok r

/-- The members of a list from index `first` up to index `last`. -/
def sliceList {α : Type _} (xs : List α) (first last : Nat) : Except Fault (List α) :=
  if last < first ∨ xs.length < last then .error (.range first last xs.length)
  else .ok ((xs.take last).drop first)

/-- The member of a list at an index. -/
def elementAt {α : Type _} (xs : List α) (i : Nat) : Except Fault α :=
  match xs[i]? with
  | some x => .ok x
  | none => .error (.index i xs.length)

/-- One less. -/
def predecessor : Nat → Except Fault Nat
  | 0 => .error .underflow
  | n + 1 => .ok n

/-- The offset of the first character that satisfies `p`. -/
def findChar? (p : Char → Bool) (t : List Char) : Option Nat :=
  (cutAtFirst p t).map fun (a, _) => byteLength a

/-- The offset at which `phrase` is first written. -/
def findPhrase? (phrase t : List Char) : Option Nat :=
  (cutAround phrase t).map fun (a, _) => byteLength a

theorem cutAtOffset?_eq_some {n : Nat} {t a b : List Char} (h : cutAtOffset? n t = some (a, b)) :
    t = a ++ b ∧ byteLength a = n := by
  induction t generalizing n a b with
  | nil =>
    cases n with
    | zero => simp_all [cutAtOffset?]
    | succ n => simp [cutAtOffset?] at h
  | cons c t ih =>
    cases n with
    | zero =>
      simp only [cutAtOffset?, Option.some.injEq, Prod.mk.injEq] at h
      obtain ⟨rfl, rfl⟩ := h
      exact ⟨rfl, rfl⟩
    | succ n =>
      rw [cutAtOffset?] at h
      split at h
      · rename_i hc
        simp only [Option.map_eq_some_iff, Prod.exists, Prod.mk.injEq] at h
        obtain ⟨u, v, hu, rfl, rfl⟩ := h
        obtain ⟨rfl, hl⟩ := ih hu
        exact ⟨rfl, by rw [byteLength_cons]; omega⟩
      · cases h

theorem cutAtOffset?_append (a b : List Char) :
    cutAtOffset? (byteLength a) (a ++ b) = some (a, b) := by
  induction a with
  | nil => simp [cutAtOffset?]
  | cons c a ih =>
    have hc := c.utf8Size_pos
    obtain ⟨n, hn⟩ : ∃ n, byteLength (c :: a) = n + 1 :=
      ⟨byteLength (c :: a) - 1, by rw [byteLength_cons]; omega⟩
    have hle : c.utf8Size ≤ n + 1 := by rw [← hn, byteLength_cons]; omega
    have hsub : n + 1 - c.utf8Size = byteLength a := by rw [← hn, byteLength_cons]; omega
    rw [hn, List.cons_append, cutAtOffset?, if_pos hle, hsub, ih, Option.map_some]

/-- A slice is what stands between two offsets at which characters begin or end. -/
theorem slice_eq_ok_iff {t r : List Char} {first last : Nat} :
    slice t first last = .ok r ↔
      ∃ a b, t = a ++ r ++ b ∧ byteLength a = first ∧ byteLength (a ++ r) = last := by
  constructor
  · intro h
    unfold slice at h
    split at h
    · cases h
    · split at h
      · cases h
      · rename_i u v hu
        split at h
        · cases h
        · rename_i a w hw
          simp only [Except.ok.injEq] at h
          subst h
          obtain ⟨rfl, hl⟩ := cutAtOffset?_eq_some hu
          obtain ⟨rfl, hf⟩ := cutAtOffset?_eq_some hw
          exact ⟨a, v, rfl, hf, hl⟩
  · rintro ⟨a, b, rfl, rfl, rfl⟩
    unfold slice
    rw [if_neg (by simp only [byteLength_append]; omega), cutAtOffset?_append (a ++ r) b]
    simp only [cutAtOffset?_append a r]

/-- A slice that does not begin at the beginning is shorter than its text. -/
theorem length_of_slice {t r : List Char} {first last : Nat} (hf : 0 < first)
    (h : slice t first last = .ok r) : r.length < t.length := by
  obtain ⟨a, b, rfl, ha, -⟩ := slice_eq_ok_iff.1 h
  cases a with
  | nil =>
    rw [byteLength_nil] at ha
    omega
  | cons c a =>
    simp only [List.length_append, List.length_cons]
    omega

theorem slice_append (a r b : List Char) :
    slice (a ++ r ++ b) (byteLength a) (byteLength (a ++ r)) = .ok r :=
  slice_eq_ok_iff.2 ⟨a, b, rfl, rfl, rfl⟩

theorem elementAt_append {α : Type _} (a : List α) (x : α) (b : List α) :
    elementAt (a ++ x :: b) a.length = .ok x := by
  simp [elementAt]

end ConnectorCatalog
