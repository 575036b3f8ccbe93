import ConnectorCatalog.Toml.Literal
import ConnectorCatalog.Text.Hexadecimal
import Mathlib.Tactic.ByContra
import Mathlib.Tactic.SplitIfs

/-!
# Strings by their parts

What stands between the quotes of a string: characters that stand for themselves, escapes, line breaks,
and backslashes at the end of a line, which join the line to the next. Parts stand for a text
(`meaning?`), and something is kept of each when they are read (`kept`). That is what they stand for
exactly if each of them is read for it (`keptAll_eq_iff`).
-/

namespace ConnectorCatalog.Toml

/-- A line break as text. -/
def breakText (withReturn : Bool) : List Char := if withReturn then ['\r', '\n'] else ['\n']

/-- A part of a string. -/
inductive StringPart
  | plain (c : Char)
  | escape (letter : Char)
  | codePoint (digits : List Char)
  | lineBreak (withReturn : Bool)
  | joined (withReturn : Bool)
deriving DecidableEq, Repr

namespace StringPart

/-- A part as it is written. -/
def source : StringPart → List Char
  | plain c => [c]
  | escape letter => ['\\', letter]
  | codePoint digits => '\\' :: (if digits.length = 4 then 'u' else 'U') :: digits
  | lineBreak withReturn => breakText withReturn
  | joined withReturn => '\\' :: breakText withReturn

/-- Where a part may stand. Only strings in double quotes have escapes, and only those over several
lines have line breaks. -/
def Fits (quote : Char) (isLong : Bool) : StringPart → Prop
  | plain c => isControl c = false ∧ (quote = '"' → c ≠ '\\') ∧ (isLong = false → c ≠ quote)
  | escape letter => quote = '"' ∧ letter ∈ ['b', 't', 'n', 'f', 'r', '"', '\\']
  | codePoint digits => quote = '"' ∧ (digits.length = 4 ∨ digits.length = 8) ∧
      ∀ d ∈ digits, isHexadecimal d = true
  | lineBreak _ => isLong = true
  | joined _ => quote = '"' ∧ isLong = true

instance (quote : Char) (isLong : Bool) : DecidablePred (Fits quote isLong)
  | plain c => inferInstanceAs
      (Decidable (isControl c = false ∧ (quote = '"' → c ≠ '\\') ∧ (isLong = false → c ≠ quote)))
  | escape letter => inferInstanceAs
      (Decidable (quote = '"' ∧ letter ∈ ['b', 't', 'n', 'f', 'r', '"', '\\']))
  | codePoint digits => @instDecidableAnd _ _ _
      (@instDecidableAnd _ _ _ (List.decidableBAll (fun d => isHexadecimal d = true) digits))
  | lineBreak _ => inferInstanceAs (Decidable (isLong = true))
  | joined _ => inferInstanceAs (Decidable (quote = '"' ∧ isLong = true))

/-! ## What parts stand for -/

/-- The character that an escape with a letter stands for. -/
def escaped? : Char → Option Char
  | 'b' => some '\x08'
  | 't' => some '\t'
  | 'n' => some '\n'
  | 'f' => some '\x0c'
  | 'r' => some '\r'
  | '"' => some '"'
  | '\\' => some '\\'
  | _ => none

/-- The character with the number that hexadecimal digits make, if there is one. -/
def character? (digits : List Char) : Option Char :=
  let n := digits.foldl (fun n d => 16 * n + (hexValue? d).getD 0) 0
  if n.isValidChar then some (Char.ofNat n) else none

/-- The text that parts stand for. `joining` says that a line has been joined to the next, and that
nothing has come since but blanks and line breaks, which count for nothing then. -/
def meaning? (joining : Bool) : List StringPart → Option (List Char)
  | [] => some []
  | plain c :: parts =>
    if joining && isGap c then meaning? true parts else (meaning? false parts).map (c :: ·)
  | escape letter :: parts => do some ((← escaped? letter) :: (← meaning? false parts))
  | codePoint digits :: parts => do some ((← character? digits) :: (← meaning? false parts))
  | lineBreak withReturn :: parts =>
    if joining then meaning? true parts else (meaning? false parts).map (breakText withReturn ++ ·)
  | joined _ :: parts => meaning? true parts

/-! ## What is kept of them -/

/-- What is kept of a part when a string is read. -/
def kept : StringPart → List Char
  | escape letter => if letter = 'b' ∨ letter = 'f' then ['\\', letter] else (escaped? letter).toList
  | p => p.source

/-- The part is read for what it stands for. -/
def IsRead : StringPart → Prop
  | escape letter => letter ≠ 'b' ∧ letter ≠ 'f'
  | codePoint _ => False
  | joined _ => False
  | _ => True

instance : DecidablePred IsRead
  | plain _ => inferInstanceAs (Decidable True)
  | escape letter => inferInstanceAs (Decidable (letter ≠ 'b' ∧ letter ≠ 'f'))
  | codePoint _ => inferInstanceAs (Decidable False)
  | lineBreak _ => inferInstanceAs (Decidable True)
  | joined _ => inferInstanceAs (Decidable False)

/-- What is kept of parts. -/
def keptAll (parts : List StringPart) : List Char := parts.flatMap kept

theorem keptAll_cons (p : StringPart) (parts : List StringPart) :
    keptAll (p :: parts) = p.kept ++ keptAll parts := List.flatMap_cons

theorem kept_escape {letter c : Char} (h : escaped? letter = some c) :
    (escape letter).IsRead ∧ (escape letter).kept = [c] ∨
      ¬ (escape letter).IsRead ∧ (escape letter).kept = ['\\', letter] := by
  by_cases hletter : letter = 'b' ∨ letter = 'f'
  · exact .inr ⟨fun hread => hletter.elim hread.1 hread.2, if_pos hletter⟩
  · exact .inl ⟨not_or.1 hletter, by rw [kept, if_neg hletter, h]; rfl⟩

variable {parts : List StringPart} {text : List Char}

/-- What a part stands for: no more than is kept of it, less if it is not read, and the same if it is
and no line has been joined before it. -/
theorem exists_of_meaning?_cons {joining : Bool} {p : StringPart}
    (h : meaning? joining (p :: parts) = some text) :
    ∃ front back joining', text = front ++ back ∧ meaning? joining' parts = some back ∧
      front.length ≤ p.kept.length ∧ (¬ p.IsRead → front.length < p.kept.length) ∧
      (joining = false → p.IsRead → joining' = false ∧ p.kept = front) := by
  cases p with
  | plain c =>
    rw [meaning?] at h
    split_ifs at h with hjoined
    · refine ⟨[], text, true, rfl, h, Nat.zero_le _, fun hread => absurd trivial hread, ?_⟩
      rintro rfl
      cases hjoined
    · obtain ⟨back, hback, rfl⟩ := Option.map_eq_some_iff.1 h
      exact ⟨[c], back, false, rfl, hback, Nat.le_refl _, fun hread => absurd trivial hread,
        fun _ _ => ⟨rfl, rfl⟩⟩
  | escape letter =>
    obtain ⟨c, hc, h⟩ := Option.bind_eq_some_iff.1 h
    obtain ⟨back, hback, h⟩ := Option.bind_eq_some_iff.1 h
    cases h
    rcases kept_escape hc with ⟨hread, hkept⟩ | ⟨hread, hkept⟩
    · exact ⟨[c], back, false, rfl, hback, hkept ▸ Nat.le_refl _,
        fun hunread => absurd hread hunread, fun _ _ => ⟨rfl, hkept⟩⟩
    · exact ⟨[c], back, false, rfl, hback, by simp [hkept], fun _ => by simp [hkept],
        fun _ hread' => absurd hread' hread⟩
  | codePoint digits =>
    obtain ⟨c, hc, h⟩ := Option.bind_eq_some_iff.1 h
    obtain ⟨back, hback, h⟩ := Option.bind_eq_some_iff.1 h
    cases h
    exact ⟨[c], back, false, rfl, hback, by simp [kept, source], fun _ => by simp [kept, source],
      fun _ hread => hread.elim⟩
  | lineBreak withReturn =>
    rw [meaning?] at h
    split_ifs at h with hjoined
    · refine ⟨[], text, true, rfl, h, Nat.zero_le _, fun hread => absurd trivial hread, ?_⟩
      rintro rfl
      cases hjoined
    · obtain ⟨back, hback, rfl⟩ := Option.map_eq_some_iff.1 h
      exact ⟨breakText withReturn, back, false, rfl, hback, Nat.le_refl _,
        fun hread => absurd trivial hread, fun _ _ => ⟨rfl, rfl⟩⟩
  | joined withReturn =>
    exact ⟨[], text, true, rfl, h, Nat.zero_le _, fun _ => by simp [kept, source],
      fun _ hread => hread.elim⟩

theorem length_le_keptAll {joining : Bool} (h : meaning? joining parts = some text) :
    text.length ≤ (keptAll parts).length := by
  induction parts generalizing joining text with
  | nil =>
    cases h
    exact Nat.le_refl 0
  | cons p parts ih =>
    obtain ⟨front, back, _, rfl, hback, hle, -, -⟩ := exists_of_meaning?_cons h
    rw [keptAll_cons, List.length_append, List.length_append]
    exact Nat.add_le_add hle (ih hback)

/-- A part that is not read shows: more is kept than the parts stand for. -/
theorem length_lt_keptAll {joining : Bool} (h : meaning? joining parts = some text) {p : StringPart}
    (hp : p ∈ parts) (hunread : ¬ p.IsRead) : text.length < (keptAll parts).length := by
  induction parts generalizing joining text with
  | nil => cases hp
  | cons q parts ih =>
    obtain ⟨front, back, _, rfl, hback, hle, hlt, -⟩ := exists_of_meaning?_cons h
    rw [keptAll_cons, List.length_append, List.length_append]
    rcases List.mem_cons.1 hp with rfl | hp
    · exact Nat.add_lt_add_of_lt_of_le (hlt hunread) (length_le_keptAll hback)
    · exact Nat.add_lt_add_of_le_of_lt hle (ih hback hp)

theorem keptAll_eq (h : meaning? false parts = some text) (hread : ∀ p ∈ parts, p.IsRead) :
    keptAll parts = text := by
  induction parts generalizing text with
  | nil =>
    cases h
    rfl
  | cons p parts ih =>
    obtain ⟨front, back, joining, rfl, hback, -, -, heq⟩ := exists_of_meaning?_cons h
    obtain ⟨rfl, hkept⟩ := heq rfl (hread p (List.mem_cons_self ..))
    rw [keptAll_cons, hkept, ih hback fun q hq => hread q (List.mem_cons_of_mem _ hq)]

/-- What is kept of parts is what they stand for exactly if each of them is read. -/
theorem keptAll_eq_iff (h : meaning? false parts = some text) :
    keptAll parts = text ↔ ∀ p ∈ parts, p.IsRead := by
  refine ⟨fun heq p hp => ?_, keptAll_eq h⟩
  by_contra hunread
  have hlt := length_lt_keptAll h hp hunread
  rw [heq] at hlt
  exact Nat.lt_irrefl _ hlt

end StringPart

end ConnectorCatalog.Toml
