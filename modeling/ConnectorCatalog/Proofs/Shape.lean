import ConnectorCatalog.Proofs.Mask
import ConnectorCatalog.Proofs.Range
import Mathlib.Data.List.Forall2

/-!
# The shape of a masked source

The masked bytes of a source are the bytes of a text, as many as those of the source, with its line
breaks, and each character of the source stands in them whole or not at all (`mask_shape`).
-/

namespace ConnectorCatalog

open Offset

/-- What a byte may be masked as: itself or, unless it is a line break, a space. -/
def MaskedAs (b shown : UInt8) : Prop := (shown = b ∨ shown = space) ∧ (shown = 0x0A ↔ b = 0x0A)

theorem maskedAs_refl (b : UInt8) : MaskedAs b b := ⟨.inl rfl, Iff.rfl⟩

/-- Only a line break has its byte. -/
theorem eq_newline_of_mem {c : Char} (h : 0x0A ∈ String.utf8EncodeChar c) : c = '\n' := by
  cases hc : isAscii c with
  | true =>
    obtain ⟨b, hb, hv⟩ := bytes_of_ascii hc
    rw [hb, List.mem_singleton] at h
    rw [← hv, ← h]
    decide
  | false => exact absurd (le_of_mem_bytes hc h) (by decide)

theorem maskedAs_replicate : ∀ (bs : List UInt8), 0x0A ∉ bs →
    List.Forall₂ MaskedAs bs (List.replicate bs.length space)
  | [], _ => .nil
  | b :: bs, h => by
    simp only [List.mem_cons, not_or] at h
    refine .cons ⟨.inr rfl, ?_⟩ (maskedAs_replicate bs h.2)
    exact ⟨fun h0 => absurd h0 (by decide), fun h0 => absurd h0.symm h.1⟩

theorem maskedAs_masked {x : Cell} (hx : x.char = '\n' → x.isCode = true) :
    List.Forall₂ MaskedAs (String.utf8EncodeChar x.char) (bytesOf x.masked) := by
  obtain ⟨c, isCode⟩ := x
  cases isCode with
  | true =>
    rw [bytesOf_masked_of_isCode]
    exact List.forall₂_same.2 fun b _ => maskedAs_refl b
  | false =>
    rw [bytesOf_masked_of_not_isCode, ← String.length_utf8EncodeChar]
    refine maskedAs_replicate _ fun h => ?_
    cases hx (eq_newline_of_mem h)

/-- Byte for byte, cells are masked as their own byte or as a space, and line breaks stay. -/
theorem maskedAs_shownBytes : ∀ (xs : List Cell), (∀ x ∈ xs, x.char = '\n' → x.isCode = true) →
    List.Forall₂ MaskedAs (bytesOf (chars xs)) (shownBytes xs)
  | [], _ => .nil
  | x :: xs, h => by
    rw [shownBytes_cons, chars, List.map_cons, bytesOf, List.flatMap_cons]
    exact List.rel_append (maskedAs_masked (h x (List.mem_cons_self ..)))
      (maskedAs_shownBytes xs fun y hy => h y (List.mem_cons_of_mem _ hy))

theorem length_shownBytes (xs : List Cell) : (shownBytes xs).length = byteLength (chars xs) := by
  induction xs with
  | nil => rfl
  | cons x xs ih =>
    have hx : (bytesOf x.masked).length = x.char.utf8Size := by
      obtain ⟨c, isCode⟩ := x
      cases isCode with
      | true => rw [bytesOf_masked_of_isCode, String.length_utf8EncodeChar]
      | false => rw [bytesOf_masked_of_not_isCode, List.length_replicate]
    rw [shownBytes_cons, List.length_append, hx, ih]
    rfl

/-- A character stands whole in the masked bytes, or not at all. -/
theorem byteRange_shownBytes (xs : List Cell) (x : Cell) (ys : List Cell) :
    byteRange (shownBytes (xs ++ x :: ys)) (byteLength (chars xs))
      (byteLength (chars xs) + x.char.utf8Size) = bytesOf x.masked := by
  have hx : (bytesOf x.masked).length = x.char.utf8Size := by
    have := length_shownBytes [x]
    rwa [shownBytes_cons, List.length_append, chars, List.map_singleton, byteLength_cons] at this
  have happ : shownBytes (xs ++ x :: ys) = shownBytes xs ++ bytesOf x.masked ++ shownBytes ys := by
    simp [shownBytes, masked]
  rw [happ, ← length_shownBytes, ← hx]
  exact byteRange_append ..

/-- The masked bytes of a source are the bytes of a text. They are as many as the bytes of the source
and have line breaks at the same places; every other byte is that of the source or a space, and each
character is kept whole or blanked whole. -/
theorem mask_shape (source : String) :
    ∃ out, maskBytes (utf8 source) = .ok out ∧ out.toByteArray.IsValidUTF8 ∧
      textOfBytes out = .ok (ConnectorCatalog.mask source).toList ∧
      out.length = (utf8 source).length ∧
      (∀ i : Nat, out[i]? = some 0x0A ↔ (utf8 source)[i]? = some 0x0A) ∧
      (∀ (i : Nat) b, (utf8 source)[i]? = some b → out[i]? = some b ∨ out[i]? = some 0x20) ∧
      ∀ before c after, source.toList = before ++ c :: after →
        byteRange out (byteLength before) (byteLength before + c.utf8Size) = String.utf8EncodeChar c ∨
        byteRange out (byteLength before) (byteLength before + c.utf8Size)
          = List.replicate c.utf8Size 0x20 := by
  have hall : List.Forall₂ MaskedAs (utf8 source) (shownBytes (cells source.toList)) := by
    have := maskedAs_shownBytes (cells source.toList) (Scan.newline_isCode _ _)
    rwa [chars_cells, ← utf8_eq_bytesOf] at this
  have hlen := hall.length_eq
  refine ⟨shownBytes (cells source.toList), ?_, ?_, ?_, hlen.symm, ?_, ?_, ?_⟩
  · rw [utf8_eq_bytesOf]
    exact maskBytes_eq source.toList
  · exact ByteArray.isValidUTF8_utf8Encode
  · rw [ConnectorCatalog.mask, String.toList_ofList]
    exact textOfBytes_bytesOf _
  · intro i
    by_cases hi : i < (utf8 source).length
    · have := (List.forall₂_iff_get.1 hall).2 i hi (hlen ▸ hi)
      rw [List.getElem?_eq_getElem hi, List.getElem?_eq_getElem (hlen ▸ hi), Option.some_inj,
        Option.some_inj]
      exact this.2
    · rw [List.getElem?_eq_none (by omega), List.getElem?_eq_none (by omega)]
  · intro i b hb
    obtain ⟨hi, rfl⟩ := List.getElem?_eq_some_iff.1 hb
    have := (List.forall₂_iff_get.1 hall).2 i hi (hlen ▸ hi)
    rw [List.getElem?_eq_getElem (hlen ▸ hi), Option.some_inj, Option.some_inj]
    exact this.1
  · intro before c after h
    have hmap : (cells source.toList).map Cell.char = before ++ c :: after := by
      rw [← h]
      exact chars_cells _
    obtain ⟨xs, ys', hxy, rfl, hys⟩ := List.map_eq_append_iff.1 hmap
    obtain ⟨x, ys, rfl, rfl, rfl⟩ := List.map_eq_cons_iff.1 hys
    rw [hxy]
    have hrange := byteRange_shownBytes xs x ys
    rw [chars] at hrange
    rw [hrange]
    obtain ⟨c, isCode⟩ := x
    cases isCode with
    | true => exact .inl (bytesOf_masked_of_isCode c)
    | false => exact .inr (bytesOf_masked_of_not_isCode c)

end ConnectorCatalog
