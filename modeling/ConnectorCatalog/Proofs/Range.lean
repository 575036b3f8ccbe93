import ConnectorCatalog.Source.Offset

/-!
# Bytes between two offsets

What stands between two offsets of a text, where the text is known in parts: a range behind a first
part is one of the second part (`byteRange_behind`), and a range splits at each byte in it
(`byteRange_split`).
-/

namespace ConnectorCatalog

variable {bytes : List UInt8} {b : UInt8} {i : Nat}

/-- A text up to an offset, the byte there, and the bytes behind it. -/
theorem exists_append_cons (h : bytes[i]? = some b) :
    ∃ a r, bytes = a ++ b :: r ∧ a.length = i := by
  obtain ⟨hi, rfl⟩ := List.getElem?_eq_some_iff.1 h
  refine ⟨bytes.take i, bytes.drop (i + 1), ?_, by simp; omega⟩
  rw [← List.drop_eq_getElem_cons hi, List.take_append_drop]

theorem byteRange_append (a r b : List UInt8) :
    byteRange (a ++ r ++ b) a.length (a.length + r.length) = r := by
  rw [byteRange, ← List.length_append, List.take_left, List.drop_left]

/-- What stands behind an offset up to another one. -/
theorem byteRange_behind (a r : List UInt8) (n : Nat) :
    byteRange (a ++ r) a.length (a.length + n) = r.take n := by
  rw [byteRange, List.take_length_add_append, List.drop_left]

theorem byteRange_behind_cons (a : List UInt8) (b : UInt8) (r : List UInt8) (n : Nat) :
    byteRange (a ++ b :: r) (a.length + 1) (a.length + 1 + n) = r.take n := by
  have h := byteRange_behind (a ++ [b]) r n
  rwa [List.append_assoc, List.singleton_append, List.length_append, List.length_singleton] at h

theorem length_byteRange {first last : Nat} (hlast : last ≤ bytes.length) :
    (byteRange bytes first last).length = last - first := by
  rw [byteRange, List.length_drop, List.length_take, Nat.min_eq_left hlast]

/-- A byte of a range is the byte of the text at its offset. -/
theorem getElem?_byteRange {first last j : Nat} (hj : first + j < last) :
    (byteRange bytes first last)[j]? = bytes[first + j]? := by
  rw [byteRange, List.getElem?_drop, List.getElem?_take_of_lt hj]

/-- The beginning of a range. -/
theorem take_byteRange {first last j : Nat} (hj : first + j ≤ last) :
    (byteRange bytes first last).take j = byteRange bytes first (first + j) := by
  rw [byteRange, byteRange, List.take_drop, List.take_take, Nat.min_eq_left hj]

/-- A range is what it has in front of one of its bytes, the byte, and what it has behind it. -/
theorem byteRange_split {first last : Nat} (hfirst : first ≤ i) (hlast : i < last)
    (hb : bytes[i]? = some b) :
    byteRange bytes first last = byteRange bytes first i ++ b :: byteRange bytes (i + 1) last := by
  obtain ⟨a, r, rfl, rfl⟩ := exists_append_cons hb
  obtain ⟨n, rfl⟩ := Nat.exists_eq_add_of_lt hlast
  rw [Nat.add_right_comm, byteRange_behind_cons, byteRange, byteRange, List.take_left,
    Nat.add_assoc, List.take_length_add_append, Nat.add_comm 1, List.take_succ_cons,
    List.drop_append_of_le_length hfirst]

end ConnectorCatalog
