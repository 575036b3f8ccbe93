import ConnectorCatalog.Source.Cell
import ConnectorCatalog.Text.WordCharacter

/-!
# Headers of classes and methods

A class header is a run of qualifiers, `class`, a name and an opening brace; a method header is a
run of qualifiers, possibly empty, `function`, a signature and an opening parenthesis. Headers are
read from what the cells show, so comments count as blanks. They are looked for from left to right,
only where a word begins, and never inside one another (`occurrences`).
-/

namespace ConnectorCatalog

/-- The cells after a keyword, if `s` begins with it. -/
def keyword? : List Char → List Cell → Option (List Cell)
  | [], s => some s
  | _ :: _, [] => none
  | c :: w, x :: s => if x.shown = c then keyword? w s else none

/-- The cells after the blanks at the beginning of `s`. -/
def afterBlanks (s : List Cell) : List Cell := s.dropWhile Cell.isBlankCode

theorem length_of_keyword? {w : List Char} {s r : List Cell} (h : keyword? w s = some r) :
    r.length + w.length = s.length := by
  induction w generalizing s with
  | nil => simp_all [keyword?]
  | cons c w ih =>
    cases s with
    | nil => simp [keyword?] at h
    | cons x s =>
      simp only [keyword?] at h
      split at h
      · have := ih h
        simp only [List.length_cons]
        omega
      · simp at h

theorem length_afterBlanks_le (s : List Cell) : (afterBlanks s).length ≤ s.length :=
  (List.dropWhile_sublist _).length_le

/-- The cells after a keyword and at least one blank. -/
def keywordBlanks? (w : List Char) (s : List Cell) : Option (List Cell) :=
  match keyword? w s with
  | some (x :: r) => if x.isBlankCode then some (afterBlanks r) else none
  | _ => none

theorem length_of_keywordBlanks? {w : List Char} {s r : List Cell}
    (h : keywordBlanks? w s = some r) : r.length < s.length := by
  unfold keywordBlanks? at h
  split at h
  · rename_i x t hk
    split at h
    · have h1 := length_of_keyword? hk
      have h2 := length_afterBlanks_le t
      simp only [Option.some.injEq] at h
      subst h
      simp only [List.length_cons] at h1
      omega
    · simp at h
  · simp at h

/-- The first of `ws` that stands at the beginning of `s` with blanks after it, and the rest. -/
def oneOf? (ws : List String) (s : List Cell) : Option (String × List Cell) :=
  ws.findSome? fun w => (keywordBlanks? w.toList s).map fun r => (w, r)

theorem length_of_oneOf? {ws : List String} {s r : List Cell} {w : String}
    (h : oneOf? ws s = some (w, r)) : r.length < s.length := by
  obtain ⟨v, -, hv⟩ := List.exists_of_findSome?_eq_some h
  obtain ⟨t, ht, he⟩ := Option.map_eq_some_iff.1 hv
  simp only [Prod.mk.injEq] at he
  exact he.2 ▸ length_of_keywordBlanks? ht

/-- The words of `ws` at the beginning of `s`, each with blanks after it, and the rest. -/
def qualifiers (ws : List String) (s : List Cell) : List String × List Cell :=
  match h : oneOf? ws s with
  | none => ([], s)
  | some (w, r) =>
    have := length_of_oneOf? h
    let (qs, rest) := qualifiers ws r
    (w :: qs, rest)
termination_by s.length

/-- A letter of a class name's beginning. -/
def isNameStart (c : Char) : Bool := c.isAlpha || c == '_'

/-- A character of a class name. -/
def isNameChar (c : Char) : Bool := c.isAlphanum || c == '_'

/-- The header of a class. -/
structure ClassHeader where
  qualifiers : List String
  name : String
deriving DecidableEq, Repr

/-- Words that may qualify a class. -/
def ClassHeader.words : List String := ["public", "isolated", "readonly", "distinct", "client"]

/-- Reads the brace that ends a class header. -/
def ClassHeader.brace? (h : ClassHeader) (s : List Cell) : Option (ClassHeader × List Cell) :=
  match afterBlanks s with
  | y :: rest => if y.shown = '{' then some (h, y :: rest) else none
  | [] => none

/-- Reads the name and the brace of a class header with the qualifiers `qs`. -/
def ClassHeader.name? (qs : List String) : List Cell → Option (ClassHeader × List Cell)
  | [] => none
  | x :: r =>
    if isNameStart x.shown then
      let name := x :: r.takeWhile fun y => isNameChar y.shown
      ClassHeader.brace? ⟨qs, String.ofList (name.map Cell.shown)⟩
        (r.dropWhile fun y => isNameChar y.shown)
    else none

/-- Reads a class header; the rest begins with its brace. -/
def ClassHeader.read? (s : List Cell) : Option (ClassHeader × List Cell) :=
  match ConnectorCatalog.qualifiers ClassHeader.words s with
  | ([], _) => none
  | (q :: qs, r) => (keywordBlanks? "class".toList r).bind (ClassHeader.name? (q :: qs))

/-- The header of a method. -/
structure MethodHeader where
  qualifiers : List String
  /-- What stands between `function` and the parenthesis, without the blanks around it. -/
  signature : List Char
deriving DecidableEq, Repr

/-- Words that may qualify a method. -/
def MethodHeader.words : List String :=
  ["public", "private", "remote", "resource", "isolated", "transactional"]

/-- A character that ends a signature. -/
def endsSignature (c : Char) : Bool := c == '(' || c == ';' || c == '{' || c == '}'

/-- Reads the signature and the parenthesis of a method header with the qualifiers `qs`. At least one
blank and one more character stand before the parenthesis, so an empty signature is read only between
two blanks. -/
def MethodHeader.signature? (qs : List String) : List Cell → Option (MethodHeader × List Cell)
  | [] => none
  | x :: r =>
    if x.isBlankCode then
      match r.dropWhile fun y => !endsSignature y.shown with
      | y :: rest =>
        let signature := masked (x :: r.takeWhile fun y => !endsSignature y.shown)
        if y.shown = '(' ∧ 1 < signature.length then some (⟨qs, trim signature⟩, y :: rest)
        else none
      | [] => none
    else none

/-- Reads a method header; the rest begins with its parenthesis. -/
def MethodHeader.read? (s : List Cell) : Option (MethodHeader × List Cell) :=
  let (qs, r) := ConnectorCatalog.qualifiers MethodHeader.words s
  (keyword? "function".toList r).bind (MethodHeader.signature? qs)

/-- A header, the cells before it and the cells from its bracket on. -/
structure Occurrence (η : Type) where
  before : List Cell
  header : η
  rest : List Cell

/-- A word may begin after the cells `before`, given right to left. -/
def atWordStart : List Cell → Bool
  | [] => true
  | x :: _ => !isWordChar x.shown

/-- The headers that `read?` finds from left to right. `before` holds the cells already passed,
right to left, and the next `skip` cells belong to the header found last. -/
def occurrencesFrom {η : Type} (read? : List Cell → Option (η × List Cell)) (before : List Cell) :
    Nat → List Cell → List (Occurrence η)
  | _, [] => []
  | skip + 1, x :: s => occurrencesFrom read? (x :: before) skip s
  | 0, x :: s =>
    match if atWordStart before then read? (x :: s) else none with
    | some (header, rest) =>
      ⟨before.reverse, header, rest⟩
        :: occurrencesFrom read? (x :: before) (s.length - rest.length + 1) s
    | none => occurrencesFrom read? (x :: before) 0 s

/-- The headers in some cells. -/
def occurrences {η : Type} (read? : List Cell → Option (η × List Cell)) (s : List Cell) :
    List (Occurrence η) :=
  occurrencesFrom read? [] 0 s

end ConnectorCatalog
