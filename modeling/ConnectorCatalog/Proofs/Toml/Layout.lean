import ConnectorCatalog.Proofs.Basic
import ConnectorCatalog.Proofs.Toml.Suffix
import Mathlib.Data.List.TakeWhile

/-!
# What a document says

A text that is read as a document is made of statements, each on its own line, with blanks, comments
and empty lines around them, and the document has all of them in order (`isLaidOut_of_parse`). The
names in a statement are those of the keys that stand in it.
-/

namespace ConnectorCatalog.Toml

/-! ## Between statements -/

/-- Spaces and tabs, and perhaps a comment behind them. -/
def IsGapText (g : List Char) : Prop :=
  ∃ blanks comment, g = blanks ++ comment ∧ (∀ c ∈ blanks, isGap c = true) ∧
    (comment = [] ∨ ∃ t, comment = '#' :: t ∧ ∀ c ∈ t, isCommentChar c = true)

/-- The end of a line. -/
inductive IsBreak : List Char → Prop
  | feed : IsBreak ['\n']
  | returnFeed : IsBreak ['\r', '\n']

/-- Lines without statements, the last of which may have no end. -/
inductive AreEmptyLines : List Char → Prop
  | gap {g : List Char} : IsGapText g → AreEmptyLines g
  | line {g b t : List Char} : IsGapText g → IsBreak b → AreEmptyLines t → AreEmptyLines (g ++ b ++ t)

variable {s r t : List Char}

theorem exists_gap (s : List Char) : ∃ g, IsGapText g ∧ s = g ++ skipGap s := by
  have hs : s.takeWhile isGap ++ s.dropWhile isGap = s := List.takeWhile_append_dropWhile
  have hblanks : ∀ c ∈ s.takeWhile isGap, isGap c = true := fun c hc => List.mem_takeWhile_imp hc
  unfold skipGap
  split
  · rename_i r hcomment
    have hr : r.takeWhile isCommentChar ++ r.dropWhile isCommentChar = r :=
      List.takeWhile_append_dropWhile
    refine ⟨_, ⟨_, '#' :: r.takeWhile isCommentChar, rfl, hblanks,
      .inr ⟨_, rfl, fun c hc => List.mem_takeWhile_imp hc⟩⟩, ?_⟩
    rw [List.append_assoc, List.cons_append, hr, ← hcomment, hs]
  · exact ⟨_, ⟨_, [], (List.append_nil _).symm, hblanks, .inl rfl⟩, hs.symm⟩

theorem isGapText_nil : IsGapText [] := ⟨[], [], rfl, nofun, .inl rfl⟩

theorem IsGapText.cons {c : Char} {g : List Char} (hc : isGap c = true) (h : IsGapText g) :
    IsGapText (c :: g) := by
  obtain ⟨blanks, comment, rfl, hblanks, hcomment⟩ := h
  exact ⟨c :: blanks, comment, rfl, List.forall_mem_cons.2 ⟨hc, hblanks⟩, hcomment⟩

theorem isGapText_comment {g : List Char} (h : ∀ c ∈ g, isCommentChar c = true) :
    IsGapText ('#' :: g) := ⟨[], '#' :: g, rfl, nofun, .inr ⟨g, rfl, h⟩⟩

theorem AreEmptyLines.cons {c : Char} (hc : isGap c = true) (h : AreEmptyLines t) :
    AreEmptyLines (c :: t) := by
  cases h with
  | gap hg => exact .gap (hg.cons hc)
  | line hg hb ht => exact .line (hg.cons hc) hb ht

/-- The rest of a comment, and empty lines behind it. -/
def IsCommentRest (t : List Char) : Prop :=
  ∃ comment lines, t = comment ++ lines ∧ (∀ c ∈ comment, isCommentChar c = true) ∧
    (lines = [] ∨ ∃ b u, lines = b ++ u ∧ IsBreak b ∧ AreEmptyLines u)

theorem IsCommentRest.areEmptyLines (h : IsCommentRest t) : AreEmptyLines ('#' :: t) := by
  obtain ⟨comment, lines, rfl, hcomment, rfl | ⟨b, u, rfl, hb, hu⟩⟩ := h
  · rw [List.append_nil]
    exact .gap (isGapText_comment hcomment)
  · have := AreEmptyLines.line (isGapText_comment hcomment) hb hu
    simpa using this

/-- What is passed before a statement is empty lines, or the rest of a comment and such lines. -/
theorem exists_emptyLines (inComment : Bool) (s : List Char) :
    ∃ t, s = t ++ skipLines inComment s ∧ if inComment then IsCommentRest t else AreEmptyLines t := by
  have hstart {inComment : Bool} :
      if inComment then IsCommentRest [] else AreEmptyLines [] := by
    cases inComment with
    | true => exact ⟨[], [], rfl, nofun, .inl rfl⟩
    | false => exact .gap isGapText_nil
  have hbreak {b u : List Char} {inComment : Bool} (hb : IsBreak b) (hu : AreEmptyLines u) :
      if inComment then IsCommentRest (b ++ u) else AreEmptyLines (b ++ u) := by
    cases inComment with
    | true => exact ⟨[], b ++ u, rfl, nofun, .inr ⟨b, u, rfl, hb, hu⟩⟩
    | false => exact .line isGapText_nil hb hu
  fun_induction skipLines inComment s with
  | case1 => exact ⟨[], rfl, hstart⟩
  | case2 inComment r ih =>
    obtain ⟨u, hr, hu⟩ := ih
    exact ⟨['\n'] ++ u, by rw [List.append_assoc, ← hr]; rfl, hbreak .feed hu⟩
  | case3 inComment r ih =>
    obtain ⟨u, hr, hu⟩ := ih
    exact ⟨['\r', '\n'] ++ u, by rw [List.append_assoc, ← hr]; rfl, hbreak .returnFeed hu⟩
  | case4 c r _ _ hc ih =>
    obtain ⟨u, hr, comment, lines, rfl, hcomment, hlines⟩ := ih
    exact ⟨c :: (comment ++ lines), by rw [List.cons_append, ← hr], c :: comment, lines, rfl,
      List.forall_mem_cons.2 ⟨hc, hcomment⟩, hlines⟩
  | case5 => exact ⟨[], rfl, hstart⟩
  | case6 inComment c r _ _ hin hc ih =>
    obtain ⟨u, hr, hu⟩ := ih
    refine ⟨c :: u, by rw [List.cons_append, ← hr], ?_⟩
    rw [if_neg hin]
    exact AreEmptyLines.cons hc hu
  | case7 inComment r hin _ _ _ ih =>
    obtain ⟨u, hr, hu⟩ := ih
    refine ⟨'#' :: u, by rw [List.cons_append, ← hr], ?_⟩
    rw [if_neg hin]
    exact IsCommentRest.areEmptyLines hu
  | case8 => exact ⟨[], rfl, hstart⟩

/-- A line ends behind a gap, with a break or with the text. -/
theorem exists_lineEnd (h : lineEnd? s = some r) :
    ∃ g b, IsGapText g ∧ s = g ++ b ++ r ∧ (IsBreak b ∨ b = [] ∧ r = []) := by
  obtain ⟨g, hg, hs⟩ := exists_gap s
  unfold lineEnd? at h
  split at h <;> cases h <;> rename_i heq <;> rw [heq] at hs
  · exact ⟨g, [], hg, by simpa using hs, .inr ⟨rfl, rfl⟩⟩
  · exact ⟨g, ['\n'], hg, by simpa using hs, .inl .feed⟩
  · exact ⟨g, ['\r', '\n'], hg, by simpa using hs, .inl .returnFeed⟩

/-! ## Statements -/

/-- The text is a key. -/
def IsKey (key : List Char) : Prop := ∃ r, keyEnd? (key ++ r) = some r

/-- The text is how a value is written. -/
def IsValue (source : List Char) (v : Value) : Prop := ∃ r, readValue? (source ++ r) = some (v, r)

namespace Statement

/-- The statement that a text is: its names are those of the keys that stand in it. -/
inductive Stands : List Char → Statement → Prop
  | pair {key g g' source : List Char} {v : Value} : IsKey key → IsGapText g → IsGapText g' →
      IsValue source v → Stands (key ++ g ++ '=' :: (g' ++ source)) (.pair (keyName key) v)
  | table {g key g' : List Char} : IsGapText g → IsKey key → IsGapText g' →
      Stands ('[' :: (g ++ key ++ g' ++ [']'])) (.table (keyName key))
  | tableArray {g key g' : List Char} : IsGapText g → IsKey key → IsGapText g' →
      Stands ('[' :: '[' :: (g ++ key ++ g' ++ [']', ']'])) (.tableArray (keyName key))

end Statement

theorem eq_cons_of_charEnd? {c : Char} (h : charEnd? c s = some r) : s = c :: r := by
  unfold charEnd? at h
  split at h
  · split_ifs at h with hc
    cases h
    rw [hc]
  · cases h

theorem exists_heading {closing : List Char} {name : String}
    (h : readHeading? closing s = some (name, r)) : ∃ g key g', IsGapText g ∧ IsKey key ∧
      IsGapText g' ∧ s = g ++ key ++ g' ++ closing ++ r ∧ name = keyName key := by
  obtain ⟨t, ht, h⟩ := Option.bind_eq_some_iff.1 h
  obtain ⟨rest, hrest, h⟩ := Option.bind_eq_some_iff.1 h
  cases h
  obtain ⟨g, hg, hs⟩ := exists_gap s
  obtain ⟨g', hg', hclosing⟩ := exists_gap t
  obtain ⟨key, hkey⟩ := suffix_keyEnd? ht
  rw [← hkey] at ht hs ⊢
  rw [← List.isPrefixOf?_eq_some_iff_append_eq.1 hrest] at hclosing
  refine ⟨g, key, g', hg, ⟨t, ht⟩, hg', ?_, by rw [before_append]⟩
  rw [hs, hclosing]
  simp

/-- A statement that is read stands at the beginning of the text, and its line ends behind it. -/
theorem exists_statement {statement : Statement} (h : readStatement? s = some (statement, r)) :
    ∃ source g b, statement.Stands source ∧ IsGapText g ∧ (IsBreak b ∨ b = [] ∧ r = []) ∧
      s = source ++ (g ++ b) ++ r := by
  unfold readStatement? at h
  split at h
  · obtain ⟨⟨name, t⟩, ht, h⟩ := Option.bind_eq_some_iff.1 h
    obtain ⟨rest, hrest, h⟩ := Option.bind_eq_some_iff.1 h
    cases h
    obtain ⟨g, key, g', hg, hkey, hg', rfl, rfl⟩ := exists_heading ht
    obtain ⟨g'', b, hg'', rfl, hb⟩ := exists_lineEnd hrest
    exact ⟨_, g'', b, .tableArray hg hkey hg', hg'', hb, by simp⟩
  · obtain ⟨⟨name, t⟩, ht, h⟩ := Option.bind_eq_some_iff.1 h
    obtain ⟨rest, hrest, h⟩ := Option.bind_eq_some_iff.1 h
    cases h
    obtain ⟨g, key, g', hg, hkey, hg', rfl, rfl⟩ := exists_heading ht
    obtain ⟨g'', b, hg'', rfl, hb⟩ := exists_lineEnd hrest
    exact ⟨_, g'', b, .table hg hkey hg', hg'', hb, by simp⟩
  · obtain ⟨e, he, h⟩ := Option.bind_eq_some_iff.1 h
    obtain ⟨t, ht, h⟩ := Option.bind_eq_some_iff.1 h
    obtain ⟨⟨v, u⟩, hu, h⟩ := Option.bind_eq_some_iff.1 h
    obtain ⟨rest, hrest, h⟩ := Option.bind_eq_some_iff.1 h
    cases h
    obtain ⟨key, rfl⟩ := suffix_keyEnd? he
    obtain ⟨g, hg, hequals⟩ := exists_gap e
    obtain ⟨g', hg', hvalue⟩ := exists_gap t
    obtain ⟨source, hsource⟩ := suffix_readValue? hu
    obtain ⟨g'', b, hg'', hline, hb⟩ := exists_lineEnd hrest
    rw [← hsource] at hu
    rw [before_append]
    refine ⟨_, g'', b, .pair ⟨e, he⟩ hg hg' ⟨u, hu⟩, hg'', hb, ?_⟩
    rw [hequals, eq_cons_of_charEnd? ht, hvalue, ← hsource, hline]
    simp

/-! ## Documents -/

/-- The text is these statements, each on a line, with empty lines between them. -/
inductive IsLaidOut : List Char → List Statement → Prop
  | nil {lines : List Char} : AreEmptyLines lines → IsLaidOut lines []
  | cons {lines source g b r : List Char} {statement : Statement} {statements : List Statement} :
      AreEmptyLines lines → statement.Stands source → IsGapText g → (IsBreak b ∨ b = [] ∧ r = []) →
      IsLaidOut r statements →
      IsLaidOut (lines ++ (source ++ (g ++ b) ++ r)) (statement :: statements)

theorem isLaidOut_of_readStatements {fuel : Nat} {statements : List Statement}
    (h : readStatements fuel s = .ok statements) : IsLaidOut s statements := by
  induction fuel generalizing s statements with
  | zero => cases h
  | succ fuel ih =>
    obtain ⟨lines, hs, hlines⟩ := exists_emptyLines false s
    unfold readStatements at h
    split at h
    · rename_i hend
      cases h
      rw [hend, List.append_nil] at hs
      exact hs ▸ .nil hlines
    · rename_i hend
      split at h
      · cases h
      · rename_i hread
        obtain ⟨rest, hrest, rfl⟩ := map_eq_ok.1 h
        obtain ⟨source, g, b, hstands, hg, hb, heq⟩ := exists_statement hread
        rw [hs, hend, heq]
        exact .cons hlines hstands hg hb (ih hrest)

/-- A document has the statements that stand in its text, in order and no others. -/
theorem isLaidOut_of_parse {content : String} {d : Document} (h : Document.parse content = .ok d) :
    IsLaidOut (withoutMark content.toList) d.statements := by
  unfold Document.parse at h
  dsimp only at h
  split at h
  · rename_i statements hread
    cases h
    exact isLaidOut_of_readStatements hread
  · cases h

end ConnectorCatalog.Toml
