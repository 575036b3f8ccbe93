import ConnectorCatalog.Offset.Slice

/-!
# Bytes of characters

An ASCII character is one byte that shows the character itself (`bytes_of_ascii`). All bytes of any
other character are at least 128 (`le_of_mem_bytes`) and show no ASCII character
(`byteView_ne_of_le`), so looking for ASCII characters byte by byte finds exactly those of the text.
The bytes of a text are read back as that text (`textOfBytes_bytesOf`).
-/

namespace ConnectorCatalog

/-- The character is one byte long. -/
def isAscii (c : Char) : Bool := c.utf8Size == 1

theorem isAscii_iff {c : Char} : isAscii c = true ↔ c.toNat < 128 := by
  rw [isAscii, beq_iff_eq, Char.utf8Size_eq_one_iff, UInt32.le_iff_toNat_le]
  exact Nat.lt_succ_iff.symm

theorem toNat_byteView (b : UInt8) : (byteView b).toNat = b.toNat := by
  have hb : b.toNat < 256 := b.toNat_lt
  have hv : b.toNat.isValidChar := Or.inl (by omega)
  rw [byteView, Char.ofNat, dif_pos hv]
  rfl

theorem byteView_inj {b c : UInt8} (h : byteView b = byteView c) : b = c := by
  rw [← UInt8.toNat_inj, ← toNat_byteView, h, toNat_byteView]

/-- A byte of a longer character shows no ASCII character. -/
theorem byteView_ne_of_le {b : UInt8} (hb : 128 ≤ b.toNat) {c : Char} (hc : isAscii c = true) :
    byteView b ≠ c := by
  rintro rfl
  have := isAscii_iff.1 hc
  rw [toNat_byteView] at this
  omega

theorem bytes_of_ascii {c : Char} (h : isAscii c = true) :
    ∃ b, String.utf8EncodeChar c = [b] ∧ byteView b = c := by
  refine ⟨c.val.toUInt8, String.utf8EncodeChar_eq_singleton (by simpa [isAscii] using h), ?_⟩
  have hlt : c.val.toNat < 128 := isAscii_iff.1 h
  apply Char.toNat_inj.1
  rw [toNat_byteView, UInt32.toNat_toUInt8, Nat.mod_eq_of_lt (by omega)]
  rfl

theorem le_toNat_or (x y : UInt8) (h : 128 ≤ y.toNat) : 128 ≤ (x ||| y).toNat := by
  rw [UInt8.toNat_or]
  exact Nat.le_trans h Nat.right_le_or

/-- Every byte of a character outside ASCII is at least 128. -/
theorem le_of_mem_bytes {c : Char} (h : isAscii c = false) {b : UInt8}
    (hb : b ∈ String.utf8EncodeChar c) : 128 ≤ b.toNat := by
  rcases c.utf8Size_eq with h1 | h2 | h3 | h4
  · simp [isAscii, h1] at h
  · rw [String.utf8EncodeChar_eq_cons_cons h2] at hb
    simp only [List.mem_cons, List.not_mem_nil, or_false] at hb
    rcases hb with rfl | rfl <;> exact le_toNat_or _ _ (by decide)
  · rw [String.utf8EncodeChar_eq_cons_cons_cons h3] at hb
    simp only [List.mem_cons, List.not_mem_nil, or_false] at hb
    rcases hb with rfl | rfl | rfl <;> exact le_toNat_or _ _ (by decide)
  · rw [String.utf8EncodeChar_eq_cons_cons_cons_cons h4] at hb
    simp only [List.mem_cons, List.not_mem_nil, or_false] at hb
    rcases hb with rfl | rfl | rfl | rfl <;> exact le_toNat_or _ _ (by decide)

theorem toList_loop (bytes : ByteArray) (i : Nat) (r : List UInt8) :
    ByteArray.toList.loop bytes i r = r.reverse ++ bytes.data.toList.drop i := by
  induction h : bytes.size - i generalizing i r with
  | zero =>
    rw [ByteArray.toList.loop, if_neg (by omega), List.drop_eq_nil_of_le, List.append_nil]
    exact Nat.le_of_sub_eq_zero h
  | succ n ih =>
    have hsize : i < bytes.size := by omega
    have hi : i < bytes.data.toList.length := hsize
    have hget : bytes.get! i = bytes.data.toList[i] := by
      simp [ByteArray.get!, hsize]
    rw [ByteArray.toList.loop, if_pos (by omega), ih _ _ (by omega), List.drop_eq_getElem_cons hi,
      hget, List.reverse_cons, List.append_assoc]
    rfl

/-- The bytes of a text are its characters' bytes in order. -/
theorem utf8_eq_bytesOf (text : String) : utf8 text = bytesOf text.toList := by
  have htext : text.toByteArray = (bytesOf text.toList).toByteArray := by
    conv => lhs; rw [← String.ofList_toList (s := text)]
    rw [String.toByteArray_ofList]
    rfl
  rw [utf8, String.toUTF8_eq_toByteArray, ByteArray.toList, toList_loop, htext,
    List.toList_data_toByteArray]
  rfl

theorem fromUTF8?_bytesOf (t : List Char) :
    String.fromUTF8? (bytesOf t).toByteArray = some (String.ofList t) := by
  have hbytes : (bytesOf t).toByteArray = t.utf8Encode := rfl
  have hvalid : (bytesOf t).toByteArray.IsValidUTF8 := hbytes ▸ ByteArray.isValidUTF8_utf8Encode
  have htext : String.fromUTF8 (bytesOf t).toByteArray hvalid = String.ofList t := by
    rw [← String.toByteArray_inj, String.toByteArray_ofList]
    rfl
  rw [String.fromUTF8?, dif_pos hvalid, htext]

/-- The bytes of a text are read back as that text. -/
theorem textOfBytes_bytesOf (t : List Char) : textOfBytes (bytesOf t) = .ok t := by
  rw [textOfBytes, fromUTF8?_bytesOf]
  simp only [String.toList_ofList]

theorem bytesOf_injective {t u : List Char} (h : bytesOf t = bytesOf u) : t = u := by
  have := textOfBytes_bytesOf t
  rw [h, textOfBytes_bytesOf] at this
  cases this
  rfl

end ConnectorCatalog
