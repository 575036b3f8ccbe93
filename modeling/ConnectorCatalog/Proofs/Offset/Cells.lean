import ConnectorCatalog.Offset.Bracket
import ConnectorCatalog.Proofs.Flat
import ConnectorCatalog.Proofs.Shape

/-!
# Cells by offset

Some cells take as many bytes in the source as in the masked text (`byteLength_masked`). So wherever
a document is cut between two cells, the offset of the cut is the same in both texts, and a slice
between two cuts is in range and at the edges of characters in both (`slice_chars`,
`slice_masked`).
-/

namespace ConnectorCatalog.Offset

/-- How many bytes some cells take. -/
def width (s : List Cell) : Nat := byteLength (chars s)

@[simp]
theorem width_nil : width [] = 0 := rfl

@[simp]
theorem width_cons (x : Cell) (s : List Cell) : width (x :: s) = x.char.utf8Size + width s := by
  rw [width, chars, List.map_cons, byteLength_cons, width, chars]

@[simp]
theorem width_append (s r : List Cell) : width (s ++ r) = width s + width r := by
  rw [width, chars, List.map_append, byteLength_append, width, width, chars, chars]

theorem chars_append (s r : List Cell) : chars (s ++ r) = chars s ++ chars r := List.map_append

theorem shownBytes_append (s r : List Cell) :
    shownBytes (s ++ r) = shownBytes s ++ shownBytes r := by
  rw [shownBytes, masked_append, bytesOf_append, shownBytes, shownBytes]

theorem length_shownBytes_eq_width (s : List Cell) : (shownBytes s).length = width s :=
  length_shownBytes s

/-- Masking keeps the number of bytes. -/
theorem byteLength_masked (s : List Cell) : byteLength (masked s) = width s := by
  rw [← length_bytesOf, ← length_shownBytes_eq_width, shownBytes]

/-- A cell that shows an ASCII character other than a space is one byte wide. -/
theorem utf8Size_of_shown {x : Cell} (h : isAscii x.shown = true ∧ x.shown ≠ ' ') :
    x.isCode = true ∧ x.char.utf8Size = 1 := by
  obtain ⟨c, isCode⟩ := x
  cases isCode with
  | true => exact ⟨rfl, by simpa [isAscii, Cell.shown] using h.1⟩
  | false => exact absurd rfl h.2

theorem width_eq_length {s : List Cell} (h : ∀ x ∈ s, isAscii x.shown = true ∧ x.shown ≠ ' ') :
    width s = s.length := by
  induction s with
  | nil => rfl
  | cons x s ih =>
    rw [width_cons, (utf8Size_of_shown (h x (List.mem_cons_self ..))).2,
      ih fun y hy => h y (List.mem_cons_of_mem _ hy), List.length_cons, Nat.add_comm]

section Slices

variable (a r b : List Cell)

theorem slice_chars : slice (chars (a ++ r ++ b)) (width a) (width (a ++ r)) = .ok (chars r) := by
  rw [chars_append, chars_append, width, width, chars_append]
  exact slice_append (chars a) (chars r) (chars b)

theorem slice_masked :
    slice (masked (a ++ r ++ b)) (width a) (width (a ++ r)) = .ok (masked r) := by
  rw [masked_append, masked_append, ← byteLength_masked, ← byteLength_masked, masked_append]
  exact slice_append (masked a) (masked r) (masked b)

theorem sliceList_append {α : Type _} (a r b : List α) :
    sliceList (a ++ r ++ b) a.length (a ++ r).length = .ok r := by
  rw [sliceList, if_neg (by simp only [List.length_append]; omega), List.take_left, List.drop_left]

theorem sliceBytes_shownBytes :
    sliceBytes (shownBytes (a ++ r ++ b)) (width a) (width (a ++ r)) = .ok (shownBytes r) := by
  rw [sliceBytes, shownBytes_append, shownBytes_append, width_append, ← length_shownBytes_eq_width,
    ← length_shownBytes_eq_width, ← List.length_append]
  exact sliceList_append _ _ _

end Slices

theorem spread_bytes : Spread Cell.shown byteView fun x => bytesOf x.masked where
  ne_nil := by
    intro x h
    have := length_shownBytes_eq_width [x]
    rw [shownBytes_cons, h, width_cons] at this
    have := x.char.utf8Size_pos
    simp only [shownBytes, masked, List.flatMap_nil, bytesOf_nil, List.append_nil, List.length_nil,
      width_nil] at *
    omega
  alike := by
    rintro ⟨c, isCode⟩
    cases isCode with
    | false =>
      refine .inr ⟨.inl rfl, fun y hy => .inl ?_⟩
      rw [bytesOf_masked_of_not_isCode] at hy
      rw [List.eq_of_mem_replicate hy]
      decide
    | true =>
      rw [bytesOf_masked_of_isCode]
      cases hc : isAscii c with
      | true =>
        obtain ⟨b, hb, hv⟩ := bytes_of_ascii hc
        exact .inl ⟨b, hb, hv⟩
      | false =>
        refine .inr ⟨.inr hc, fun b hb => .inr ?_⟩
        rw [← Bool.not_eq_true]
        exact fun h => byteView_ne_of_le (le_of_mem_bytes hc hb) h rfl

theorem shownBytes_eq_flatMap (s : List Cell) :
    shownBytes s = s.flatMap fun x => bytesOf x.masked := by
  rw [shownBytes, masked, bytesOf, List.flatMap_assoc]
  rfl

end ConnectorCatalog.Offset
