import ConnectorCatalog.Proofs.Bytes
import ConnectorCatalog.Url.Percent
import Mathlib.Tactic.SplitIfs

/-!
# Percent encoding is undone

A byte is read back from its two digits, so an encoded text is read back as the bytes of the text if
the percent sign is encoded with the rest (`decode_encode`). What is encoded does not stand in the
encoded text (`ne_of_mem_encode`).
-/

namespace ConnectorCatalog.Percent

theorem hexValue?_hexDigit {n : Nat} (h : n < 16) : hexValue? (hexDigit n) = some n := by
  revert n
  decide

theorem decode_encodeByte (b : UInt8) (r : List Char) :
    decode (encodeByte b ++ r) = b :: decode r := by
  have hb : b.toNat < 256 := b.toNat_lt
  have hhigh := hexValue?_hexDigit (show b.toNat / 16 < 16 by omega)
  have hlow := hexValue?_hexDigit (Nat.mod_lt b.toNat (show 0 < 16 by decide))
  have hnumber : UInt8.ofNat (16 * (b.toNat / 16) + b.toNat % 16) = b := by
    rw [Nat.div_add_mod, UInt8.ofNat_toNat]
  change decode ('%' :: hexDigit _ :: hexDigit _ :: r) = _
  rw [decode, hhigh, hlow]
  dsimp only
  rw [hnumber]

theorem decode_cons {c : Char} (hc : c ≠ '%') (r : List Char) :
    decode (c :: r) = String.utf8EncodeChar c ++ decode r := by
  rw [decode.eq_def]
  split
  · rename_i h
    cases h
    exact absurd rfl hc
  · rename_i h
    cases h
    rfl
  · rename_i h
    cases h

theorem decode_encodeChar (c : Char) (r : List Char) :
    decode (encodeChar c ++ r) = String.utf8EncodeChar c ++ decode r := by
  rw [encodeChar]
  induction String.utf8EncodeChar c with
  | nil => rfl
  | cons b bytes ih =>
    rw [List.flatMap_cons, List.append_assoc, decode_encodeByte, ih, List.cons_append]

/-- A text is read back if each of its characters is, whatever follows. -/
theorem decode_flatMap {f : Char → List Char}
    (h : ∀ c r, decode (f c ++ r) = String.utf8EncodeChar c ++ decode r) (s : List Char) :
    decode (s.flatMap f) = bytesOf s := by
  induction s with
  | nil => rfl
  | cons c s ih =>
    rw [List.flatMap_cons, h, ih]
    rfl

/-- An encoded text is read back if the percent sign is encoded too. -/
theorem decode_encode {extra : List Char} (h : '%' ∈ extra) (s : List Char) :
    decode (encode extra s) = bytesOf s := by
  apply decode_flatMap
  intro c r
  split_ifs with hc
  · apply decode_cons
    rintro rfl
    simp [h] at hc
  · exact decode_encodeChar c r

/-- An encoded character is percent signs and digits. -/
theorem of_mem_encodeChar {x c : Char} (h : x ∈ encodeChar c) :
    x = '%' ∨ (hexValue? x).isSome = true := by
  obtain ⟨b, -, hx⟩ := List.mem_flatMap.1 h
  have hb : b.toNat < 256 := b.toNat_lt
  simp only [encodeByte, List.mem_cons, List.not_mem_nil, or_false] at hx
  rcases hx with rfl | rfl | rfl
  · exact .inl rfl
  · exact .inr (by rw [hexValue?_hexDigit (by omega)]; rfl)
  · exact .inr (by rw [hexValue?_hexDigit (Nat.mod_lt _ (by decide))]; rfl)

/-- What is encoded does not appear in the encoded text, the percent sign and the digits apart. -/
theorem ne_of_mem_encode {extra s : List Char} {x d : Char} (h : x ∈ encode extra s) (hd : d ∈ extra)
    (hsign : d ≠ '%') (hdigit : hexValue? d = none) : x ≠ d := by
  rintro rfl
  obtain ⟨c, -, hx⟩ := List.mem_flatMap.1 h
  split_ifs at hx with hc
  · rw [List.mem_singleton.1 hx] at hd
    simp [hd] at hc
  · rcases of_mem_encodeChar hx with hx | hx
    · exact hsign hx
    · rw [hdigit] at hx
      cases hx

end ConnectorCatalog.Percent
