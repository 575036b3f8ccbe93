import ConnectorCatalog.Proofs.Toml.Literal
import ConnectorCatalog.Proofs.Toml.Name
import ConnectorCatalog.Proofs.Toml.Sections
import ConnectorCatalog.Settings

/-!
# Documents written and read

A document that is written statement by statement is read as itself (`Document.parse_written`). So a
look-up in a text made of tables finds the value that was written last for its table and key, and the
settings in such a text are those that were written (`parse_tables`).
-/

namespace ConnectorCatalog

namespace Toml

namespace Statement

/-- A statement on its line. -/
def written : Statement → List Char
  | pair key value => key.toList ++ [' ', '=', ' '] ++ value.written
  | table name => ['['] ++ name.toList ++ [']']
  | tableArray name => ['[', '['] ++ name.toList ++ [']', ']']

/-- The names are bare, and the value is one that can be written. -/
def Writable : Statement → Prop
  | pair key value => IsBareName key ∧ value.Writable
  | table name => IsBareName name
  | tableArray name => IsBareName name

instance : DecidablePred Writable
  | pair key value => inferInstanceAs (Decidable (IsBareName key ∧ value.Writable))
  | table name => inferInstanceAs (Decidable (IsBareName name))
  | tableArray name => inferInstanceAs (Decidable (IsBareName name))

end Statement

/-- Statements, each on a line. -/
def writeLines (statements : List Statement) : List Char :=
  statements.flatMap fun s => s.written ++ ['\n']

theorem readHeading?_append {name : String} (h : IsBareName name) (closing r : List Char) :
    readHeading? (']' :: closing) (name.toList ++ ']' :: (closing ++ r)) = some (name, r) := by
  have hgap : skipGap (name.toList ++ ']' :: (closing ++ r))
      = name.toList ++ ']' :: (closing ++ r) := by
    obtain ⟨c, t, hc, hname⟩ := exists_first h
    rw [hname]
    exact skipGap_bare hc _
  have hend : keyEnd? (name.toList ++ ']' :: (closing ++ r)) = some (']' :: (closing ++ r)) := by
    refine keyEnd?_append h (fun c hc => ?_) fun t => ?_
    · cases hc
      rfl
    · rw [skipGap_cons rfl (by decide)]
      simp
  have hclosing : (']' :: closing).isPrefixOf? (']' :: (closing ++ r)) = some r :=
    List.isPrefixOf?_eq_some_iff_append_eq.2 rfl
  simp [readHeading?, hgap, hend, skipGap_cons (c := ']') rfl (by decide), hclosing, before_append,
    keyName_toList h]

theorem lineEnd?_newline (r : List Char) : lineEnd? ('\n' :: r) = some r := rfl

theorem skipGap_written {v : Value} (h : v.Writable) (r : List Char) :
    skipGap (' ' :: (v.written ++ '\n' :: r)) = v.written ++ '\n' :: r := by
  have hspace : ∀ s, skipGap (' ' :: s) = skipGap s := fun s => by simp [skipGap, isGap]
  obtain ⟨c, t, hc, hwritten⟩ := Value.exists_first h
  simp only [List.mem_cons, List.not_mem_nil, or_false, not_or] at hc
  rw [hspace, hwritten]
  exact skipGap_cons (by simp [isGap, hc]) hc.2.2.1 _

/-- A pair is read if its value is. -/
theorem readStatement?_of_readValue? {key : String} {source r : List Char} {value : Value}
    (hkey : IsBareName key)
    (hgap : skipGap (' ' :: (source ++ '\n' :: r)) = source ++ '\n' :: r)
    (hvalue : readValue? (source ++ '\n' :: r) = some (value, '\n' :: r)) :
    readStatement? (key.toList ++ ' ' :: '=' :: ' ' :: (source ++ '\n' :: r))
      = some (.pair key value, r) := by
  have hend : keyEnd? (key.toList ++ ' ' :: '=' :: ' ' :: (source ++ '\n' :: r))
      = some (' ' :: '=' :: ' ' :: (source ++ '\n' :: r)) := by
    refine keyEnd?_append hkey (fun c hc => ?_) fun t => ?_
    · cases hc
      rfl
    · simp [skipGap, isGap]
  have hequals : skipGap (' ' :: '=' :: ' ' :: (source ++ '\n' :: r))
      = '=' :: ' ' :: (source ++ '\n' :: r) := by simp [skipGap, isGap]
  obtain ⟨c, t, hc, hname⟩ := exists_first hkey
  have hbracket : c ≠ '[' := ne_of_isBareKeyChar hc rfl
  unfold readStatement?
  split
  · simp_all
  · simp_all
  · simp [hend, hequals, charEnd?, hgap, hvalue, lineEnd?_newline, before_append, keyName_toList hkey]

/-- A statement is read as it was written. -/
theorem readStatement?_written {s : Statement} (h : s.Writable) (r : List Char) :
    readStatement? (s.written ++ '\n' :: r) = some (s, r) := by
  cases s with
  | pair key value =>
    have hwritten : (Statement.pair key value).written ++ '\n' :: r
        = key.toList ++ ' ' :: '=' :: ' ' :: (value.written ++ '\n' :: r) := by
      simp [Statement.written]
    rw [hwritten, readStatement?_of_readValue? h.1 (skipGap_written h.2 r) (readValue?_written h.2 r)]
  | table name =>
    have hread := readHeading?_append h [] ('\n' :: r)
    have hwritten : (Statement.table name).written ++ '\n' :: r
        = '[' :: (name.toList ++ ']' :: ([] ++ '\n' :: r)) := by simp [Statement.written]
    obtain ⟨c, t, hc, hname⟩ := exists_first h
    have hbracket : c ≠ '[' := ne_of_isBareKeyChar hc rfl
    rw [hwritten, readStatement?, hread]
    · rfl
    · simp [hname, hbracket]
  | tableArray name =>
    have hread := readHeading?_append h [']'] ('\n' :: r)
    have hwritten : (Statement.tableArray name).written ++ '\n' :: r
        = '[' :: '[' :: (name.toList ++ ']' :: ([']'] ++ '\n' :: r)) := by
      simp [Statement.written]
    rw [hwritten, readStatement?, hread]
    rfl

/-! ## Documents -/

theorem Statement.exists_first {s : Statement} (h : s.Writable) :
    ∃ c t, (c = '[' ∨ isBareKeyChar c = true) ∧ s.written = c :: t := by
  cases s with
  | pair key value =>
    obtain ⟨c, t, hc, hkey⟩ := Toml.exists_first h.1
    exact ⟨c, t ++ [' ', '=', ' '] ++ value.written, .inr hc, by simp [written, hkey]⟩
  | table name => exact ⟨'[', _, .inl rfl, rfl⟩
  | tableArray name => exact ⟨'[', _, .inl rfl, rfl⟩

theorem skipLines_cons {c : Char} (hc : c = '[' ∨ isBareKeyChar c = true) (s : List Char) :
    skipLines false (c :: s) = c :: s := by
  have hne : ∀ {d}, d ≠ '[' → isBareKeyChar d = false → c ≠ d := by
    rintro d hbracket hbare rfl
    exact hc.elim hbracket (by simp [hbare])
  have hspace : c ≠ ' ' := hne (by decide) rfl
  have htab : c ≠ '\t' := hne (by decide) rfl
  have hhash : c ≠ '#' := hne (by decide) rfl
  rw [skipLines]
  · simp [isGap, hspace, htab, hhash]
  · exact hne (by decide) rfl
  · exact fun _ h => absurd h (hne (by decide) rfl)

/-- A line that is read as a statement, whatever comes behind it. -/
structure IsLine (line : List Char) (s : Statement) : Prop where
  first : ∃ c t, (c = '[' ∨ isBareKeyChar c = true) ∧ line = c :: t
  read : ∀ r, readStatement? (line ++ '\n' :: r) = some (s, r)

theorem isLine_written {s : Statement} (h : s.Writable) : IsLine s.written s :=
  ⟨s.exists_first h, readStatement?_written h⟩

theorem forall₂_isLine {statements : List Statement} (h : ∀ s ∈ statements, s.Writable) :
    List.Forall₂ IsLine (statements.map Statement.written) statements :=
  List.forall₂_map_left_iff.2 (List.forall₂_same.2 fun s hs => isLine_written (h s hs))

/-- Lines as a text. -/
def joinLines (lines : List (List Char)) : List Char := lines.flatMap fun line => line ++ ['\n']

theorem joinLines_cons (line : List Char) (lines : List (List Char)) :
    joinLines (line :: lines) = line ++ '\n' :: joinLines lines := by
  simp [joinLines]

theorem writeLines_eq (statements : List Statement) :
    writeLines statements = joinLines (statements.map Statement.written) := by
  rw [writeLines, joinLines, List.flatMap_map]

theorem joinLines_append (front back : List (List Char)) :
    joinLines (front ++ back) = joinLines front ++ joinLines back := List.flatMap_append

theorem length_le_joinLines : ∀ lines : List (List Char), lines.length ≤ (joinLines lines).length
  | [] => Nat.le_refl _
  | line :: lines => by
    have := length_le_joinLines lines
    rw [joinLines_cons, List.length_append, List.length_cons, List.length_cons]
    omega

theorem readStatements_joinLines {lines : List (List Char)} {statements : List Statement}
    (h : List.Forall₂ IsLine lines statements) {fuel : Nat} (hfuel : lines.length < fuel) :
    readStatements fuel (joinLines lines) = .ok statements := by
  induction h generalizing fuel with
  | nil =>
    obtain ⟨fuel, rfl⟩ := Nat.exists_eq_succ_of_ne_zero (Nat.ne_of_gt hfuel)
    rfl
  | @cons line s lines statements hline hlines ih =>
    obtain ⟨fuel, rfl⟩ := Nat.exists_eq_succ_of_ne_zero (Nat.ne_of_gt (Nat.zero_lt_of_lt hfuel))
    have hread := hline.read (joinLines lines)
    obtain ⟨c, t, hc, hfirst⟩ := hline.first
    rw [hfirst, List.cons_append] at hread
    rw [joinLines_cons, hfirst, List.cons_append, readStatements, skipLines_cons hc]
    simp [hread, ih (Nat.lt_of_succ_lt_succ hfuel)]

/-- Lines that are read one by one are read together. -/
theorem Document.parse_joinLines {lines : List (List Char)} {statements : List Statement}
    (h : List.Forall₂ IsLine lines statements) :
    Document.parse (String.ofList (joinLines lines)) = .ok ⟨statements⟩ := by
  have hmark : withoutMark (joinLines lines) = joinLines lines := by
    cases h with
    | nil => rfl
    | cons hline hlines =>
      obtain ⟨c, t, hc, hfirst⟩ := hline.first
      rw [joinLines_cons, hfirst, List.cons_append, withoutMark]
      rintro _ heq
      rw [(List.cons.inj heq).1] at hc
      revert hc
      decide
  have hread := readStatements_joinLines h (Nat.lt_succ_of_le (length_le_joinLines lines))
  simp [Document.parse, hmark, hread]

/-- A document as a text, each statement on a line. -/
def Document.written (d : Document) : String := String.ofList (writeLines d.statements)

/-- A document is read as it was written. -/
theorem Document.parse_written {d : Document} (h : ∀ s ∈ d.statements, s.Writable) :
    Document.parse d.written = .ok d := by
  rw [written, writeLines_eq]
  exact parse_joinLines (forall₂_isLine h)

/-! ## Tables -/

/-- The document of some tables, each with its pairs. -/
def Document.ofTables (tables : List (String × List (String × Value))) : Document :=
  ⟨tables.flatMap fun t => .table t.1 :: t.2.map fun p => .pair p.1 p.2⟩

/-- The value that was written last for a key in the tables with a name. -/
def lastWritten? (tables : List (String × List (String × Value))) (name key : String) :
    Option Value :=
  Document.lastValue? key (tables.flatMap fun t => if t.1 = name then t.2 else [])

namespace Document

theorem pairsUnder_tables (name : String) : ∀ (tables : List (String × List (String × Value)))
    (current : Option String), pairsUnder name current (ofTables tables).statements
      = tables.flatMap fun t => if t.1 = name then t.2 else []
  | [], _ => rfl
  | t :: tables, current => by
    have ih := pairsUnder_tables name tables (some t.1)
    have hpairs := pairsUnder_pairStatements name (some t.1) (ofTables tables).statements t.2
    simp only [ih, Option.some_inj] at hpairs
    exact hpairs

theorem get?_ofTables (tables : List (String × List (String × Value))) (name key : String) :
    (ofTables tables).get? name key = lastWritten? tables name key := by
  rw [get?_eq, pairsUnder_tables, lastWritten?]

end Document

end Toml

open Toml

/-- Settings have what was written last in some tables: every text that is not empty, and every port
of 16 bits. -/
structure Settings.Holds (s : Settings) (tables : List (String × List (String × Value))) : Prop where
  host : ∀ text, text ≠ "" → lastWritten? tables "proxy" "host" = some (.string text) →
    s.proxy.host = text
  port : ∀ n : UInt16, lastWritten? tables "proxy" "port" = some (.integer n.toNat) →
    s.proxy.port = n
  username : ∀ text, text ≠ "" → lastWritten? tables "proxy" "username" = some (.string text) →
    s.proxy.username = some text
  password : ∀ text, text ≠ "" → lastWritten? tables "proxy" "password" = some (.string text) →
    s.proxy.password = some text
  token : ∀ text, text ≠ "" → lastWritten? tables "central" "accesstoken" = some (.string text) →
    s.fileToken = some text

theorem text?_of_get? {d : Toml.Document} {table key text : String} (htext : text ≠ "")
    (h : d.get? table key = some (.string text)) : d.text? table key = some text := by
  simp [Toml.Document.text?, h, htext]

theorem host_ofDocument {d : Toml.Document} {text : String} (htext : text ≠ "")
    (h : d.get? "proxy" "host" = some (.string text)) : (Settings.ofDocument d).proxy.host = text := by
  simp [Settings.ofDocument, text?_of_get? htext h]

theorem port_ofDocument {d : Toml.Document} {n : UInt16}
    (h : d.get? "proxy" "port" = some (.integer n.toNat)) : (Settings.ofDocument d).proxy.port = n := by
  have hport : d.integer? "proxy" "port" = some (n.toNat : Int) := by
    simp [Toml.Document.integer?, h]
  have hrange : (n.toNat : Int) < 65536 := by
    have := n.toNat_lt
    omega
  simp [Settings.ofDocument, hport, hrange]

theorem holds_ofDocument {d : Toml.Document} {tables : List (String × List (String × Value))}
    (h : ∀ name key, d.get? name key = lastWritten? tables name key) :
    (Settings.ofDocument d).Holds tables where
  host := fun _ htext hlast => host_ofDocument htext ((h _ _).trans hlast)
  port := fun _ hlast => port_ofDocument ((h _ _).trans hlast)
  username := fun _ htext hlast => text?_of_get? htext ((h _ _).trans hlast)
  password := fun _ htext hlast => text?_of_get? htext ((h _ _).trans hlast)
  token := fun _ htext hlast => text?_of_get? htext ((h _ _).trans hlast)

/-- A text made of tables is read, and a look-up finds in it what was written last for its table and
key, or nothing if nothing was. The settings in it are those that were written. -/
theorem parse_tables {tables : List (String × List (String × Value))}
    (h : ∀ t ∈ tables, IsBareName t.1 ∧ ∀ p ∈ t.2, IsBareName p.1 ∧ p.2.Writable) :
    (∃ d, Toml.Document.parse (Toml.Document.ofTables tables).written = .ok d ∧
      ∀ name key, d.get? name key = lastWritten? tables name key) ∧
    ∃ s, Settings.parse (Toml.Document.ofTables tables).written = .ok s ∧ s.Holds tables := by
  have hwritable : ∀ s ∈ (Toml.Document.ofTables tables).statements, s.Writable := by
    intro s hs
    obtain ⟨t, ht, hs⟩ := List.mem_flatMap.1 hs
    rcases List.mem_cons.1 hs with rfl | hs
    · exact (h t ht).1
    · obtain ⟨p, hp, rfl⟩ := List.mem_map.1 hs
      exact (h t ht).2 p hp
  have hparse := Toml.Document.parse_written hwritable
  refine ⟨⟨_, hparse, Toml.Document.get?_ofTables tables⟩, Settings.ofDocument (.ofTables tables), ?_,
    holds_ofDocument (Toml.Document.get?_ofTables tables)⟩
  rw [Settings.parse, hparse]
  rfl

/-- The host is written twice, the second time in quotes of its own, and the port too. -/
theorem parse_tables_twice :
    ∃ d, Toml.Document.parse ("[proxy]\nhost = \"a\\tb\"\nport = 1\nport = 65535\n"
        ++ "[a.b-c]\nk = true\nk = -9223372036854775808\n"
        ++ "[proxy]\nhost = \"\\\"\\\"\\\"\\n\\\\\"\n") = .ok d ∧
      d.get? "proxy" "host" = some (.string "\"\"\"\n\\") ∧
      d.get? "proxy" "port" = some (.integer 65535) ∧
      d.get? "a.b-c" "k" = some (.integer (-9223372036854775808)) ∧
      d.get? "proxy" "k" = none := by
  obtain ⟨⟨d, hd, hget⟩, -⟩ := @parse_tables
    [("proxy", [("host", .string "a\tb"), ("port", .integer 1), ("port", .integer 65535)]),
      ("a.b-c", [("k", .boolean true), ("k", .integer (-9223372036854775808))]),
      ("proxy", [("host", .string "\"\"\"\n\\")])] (by decide)
  refine ⟨d, hd, ?_, ?_, ?_, ?_⟩ <;> rw [hget] <;> decide

end ConnectorCatalog
