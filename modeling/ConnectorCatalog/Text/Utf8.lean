/-!
# Texts and their bytes

The UTF-8 form of a text, how long it is, and what stands between two offsets in it. A byte of a
character outside ASCII is no ASCII character, so bytes may be looked at one by one (`byteView`).
Bytes that need not be UTF-8 are read with a replacement character for what is none (`lossyChars`);
the bytes of a text are read as that (`lossyChars_bytesOf`).
-/

namespace ConnectorCatalog

/-- A byte seen as the character with its number. -/
def byteView (b : UInt8) : Char := Char.ofNat b.toNat

/-- The UTF-8 bytes of a text. -/
def utf8 (text : String) : List UInt8 := text.toUTF8.toList

/-- The bytes from offset `first` up to, not including, offset `last`. -/
def byteRange (bytes : List UInt8) (first last : Nat) : List UInt8 := (bytes.take last).drop first

/-- The bytes of a text. -/
def bytesOf (t : List Char) : List UInt8 := t.flatMap String.utf8EncodeChar

/-- How many bytes a text has. -/
def byteLength : List Char → Nat
  | [] => 0
  | c :: t => c.utf8Size + byteLength t

@[simp]
theorem bytesOf_nil : bytesOf [] = [] := rfl

@[simp]
theorem bytesOf_append (a b : List Char) : bytesOf (a ++ b) = bytesOf a ++ bytesOf b := by
  simp [bytesOf]

@[simp]
theorem byteLength_nil : byteLength [] = 0 := rfl

@[simp]
theorem byteLength_cons (c : Char) (t : List Char) :
    byteLength (c :: t) = c.utf8Size + byteLength t := rfl

@[simp]
theorem byteLength_append (a b : List Char) :
    byteLength (a ++ b) = byteLength a + byteLength b := by
  induction a with
  | nil => simp
  | cons c a ih => rw [List.cons_append, byteLength_cons, byteLength_cons, ih, Nat.add_assoc]

@[simp]
theorem length_bytesOf (t : List Char) : (bytesOf t).length = byteLength t := by
  induction t with
  | nil => rfl
  | cons c t ih =>
    rw [bytesOf, List.flatMap_cons, List.length_append, String.length_utf8EncodeChar,
      byteLength_cons, ← ih, bytesOf]

theorem eq_nil_of_byteLength {t : List Char} (h : byteLength t = 0) : t = [] := by
  cases t with
  | nil => rfl
  | cons c t =>
    have := c.utf8Size_pos
    rw [byteLength_cons] at h
    omega

theorem byteLength_pos_of_ne_nil {t : List Char} (h : t ≠ []) : 0 < byteLength t := by
  rcases Nat.eq_zero_or_pos (byteLength t) with h0 | hpos
  · exact absurd (eq_nil_of_byteLength h0) h
  · exact hpos

/-- The character that some bytes begin with. -/
def leadingChar? (bytes : List UInt8) : Option Char :=
  (bytes.take 4).toByteArray.utf8DecodeChar? 0

/-- A byte that continues a character. -/
def isContinuation (b : UInt8) : Bool := 0x80 ≤ b && b ≤ 0xBF

/-- Two bytes that a character of three or four bytes may begin with. -/
def beginsLong (a b : UInt8) : Bool :=
  if a = 0xE0 then 0xA0 ≤ b && b ≤ 0xBF
  else if a = 0xED then 0x80 ≤ b && b ≤ 0x9F
  else if a = 0xF0 then 0x90 ≤ b && b ≤ 0xBF
  else if a = 0xF4 then 0x80 ≤ b && b ≤ 0x8F
  else 0xE0 < a && a < 0xF4 && isContinuation b

/-- How many bytes one replacement character stands for where no character begins: as many as one
could begin with. -/
def brokenLength : List UInt8 → Nat
  | a :: b :: s =>
    if beginsLong a b then
      if 0xF0 ≤ a && s.head?.any isContinuation then 3 else 2
    else 1
  | _ => 1

/-- The characters of some bytes, with a replacement character for those that are not UTF-8. -/
def lossyChars : List UInt8 → List Char
  | [] => []
  | b :: s =>
    match leadingChar? (b :: s) with
    | some c => c :: lossyChars (s.drop (c.utf8Size - 1))
    | none => Char.ofNat 0xFFFD :: lossyChars (s.drop (brokenLength (b :: s) - 1))
termination_by bytes => bytes.length
decreasing_by all_goals simp only [List.length_drop, List.length_cons]; omega

theorem leadingChar?_append (c : Char) (s : List UInt8) :
    leadingChar? (String.utf8EncodeChar c ++ s) = some c := by
  have hlength : (String.utf8EncodeChar c).length ≤ 4 := by
    rw [String.length_utf8EncodeChar]
    exact c.utf8Size_le_four
  rw [leadingChar?, List.take_append, List.take_of_length_le hlength, List.toByteArray_append]
  exact ByteArray.utf8DecodeChar?_utf8EncodeChar_append

/-- The bytes of a text are read as the text. -/
theorem lossyChars_bytesOf (t : List Char) : lossyChars (bytesOf t) = t := by
  induction t with
  | nil => rw [bytesOf_nil, lossyChars]
  | cons c t ih =>
    have hlead := leadingChar?_append c (bytesOf t)
    have hlength := String.length_utf8EncodeChar c
    have hpos := c.utf8Size_pos
    rw [bytesOf, List.flatMap_cons, ← bytesOf]
    generalize hbytes : String.utf8EncodeChar c = bytes at hlead hlength ⊢
    cases bytes with
    | nil =>
      rw [List.length_nil] at hlength
      omega
    | cons b s =>
      rw [List.length_cons] at hlength
      have hdrop : (s ++ bytesOf t).drop (c.utf8Size - 1) = bytesOf t := by
        rw [← hlength, Nat.add_sub_cancel, List.drop_left]
      rw [List.cons_append] at hlead ⊢
      rw [lossyChars, hlead]
      simp only [hdrop, ih]

example : lossyChars [0x61, 0xE2, 0x82, 0x62, 0xFF]
    = ['a', Char.ofNat 0xFFFD, 'b', Char.ofNat 0xFFFD] := by
  decide +kernel

end ConnectorCatalog
