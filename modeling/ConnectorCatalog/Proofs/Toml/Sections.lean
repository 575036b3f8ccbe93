import ConnectorCatalog.Proofs.Toml.Layout
import ConnectorCatalog.Proofs.Toml.Lookup

/-!
# Sections

A document is its pairs before the first header and its sections, each a header with the pairs under
it. A table has the pairs of the sections with its name, whatever stands between these, and a look-up
finds the last of them with its key; the pairs under a table array are in no table. The keys of a table
stand in the order in which they come first (`get?_parse`).
-/

namespace ConnectorCatalog.Toml

/-- A header and the pairs under it. -/
structure Section where
  isArray : Bool
  name : String
  pairs : List (String × Value)
deriving DecidableEq, Repr

namespace Section

/-- Pairs as statements. -/
def pairStatements (pairs : List (String × Value)) : List Statement :=
  pairs.map fun p => .pair p.1 p.2

/-- The header as a statement. -/
def header (s : Section) : Statement := if s.isArray then .tableArray s.name else .table s.name

/-- The statements of a section. -/
def statements (s : Section) : List Statement := s.header :: pairStatements s.pairs

end Section

namespace Document

open Section

/-- The statements of pairs and of the sections behind them. -/
def inSections (root : List (String × Value)) (sections : List Section) : List Statement :=
  pairStatements root ++ sections.flatMap Section.statements

/-- The pairs of a table: those before the sections for the table without a name, and those of the
sections with its name that are no table arrays. -/
def pairsOf (root : List (String × Value)) (sections : List Section) (name : String) :
    List (String × Value) :=
  (if name = "" then root else [])
    ++ (sections.filter fun s => !s.isArray && s.name == name).flatMap Section.pairs

/-- Every document has its statements in sections. -/
theorem exists_inSections : ∀ statements : List Statement,
    ∃ root sections, statements = inSections root sections
  | [] => ⟨[], [], rfl⟩
  | s :: statements => by
    obtain ⟨root, sections, rfl⟩ := exists_inSections statements
    cases s with
    | pair key value => exact ⟨(key, value) :: root, sections, rfl⟩
    | table name => exact ⟨[], ⟨false, name, root⟩ :: sections, rfl⟩
    | tableArray name => exact ⟨[], ⟨true, name, root⟩ :: sections, rfl⟩

theorem pairsUnder_pairStatements (name : String) (current : Option String) (rest : List Statement) :
    ∀ pairs : List (String × Value),
      pairsUnder name current (pairStatements pairs ++ rest)
        = (if current = some name then pairs else []) ++ pairsUnder name current rest
  | [] => by simp [pairStatements]
  | p :: pairs => by
    have ih := pairsUnder_pairStatements name current rest pairs
    unfold pairStatements at ih ⊢
    rw [List.map_cons, List.cons_append, pairsUnder, ih]
    split_ifs <;> rfl

theorem pairsUnder_sections (name : String) : ∀ (sections : List Section) (current : Option String),
    pairsUnder name current (sections.flatMap Section.statements)
      = (sections.filter fun s => !s.isArray && s.name == name).flatMap Section.pairs
  | [], _ => rfl
  | ⟨isArray, header, pairs⟩ :: sections, current => by
    have ih := pairsUnder_sections name sections
    cases isArray with
    | true => simp [Section.statements, Section.header, pairsUnder, pairsUnder_pairStatements, ih]
    | false =>
      by_cases hname : header = name <;>
        simp [Section.statements, Section.header, pairsUnder, pairsUnder_pairStatements, ih, hname]

theorem pairsUnder_inSections (root : List (String × Value)) (sections : List Section)
    (name : String) : pairsUnder name (some "") (inSections root sections)
      = pairsOf root sections name := by
  rw [inSections, pairsUnder_pairStatements, pairsUnder_sections, pairsOf]
  simp only [Option.some_inj, eq_comm]

/-! ## Order -/

theorem keys_insert (key : String) (value : Value) : ∀ t : Table,
    (Table.insert key value t).map Prod.fst
      = if key ∈ t.map Prod.fst then t.map Prod.fst else t.map Prod.fst ++ [key]
  | [] => rfl
  | (k, v) :: t => by
    rw [Table.insert]
    by_cases hk : k = key
    · simp [hk]
    · rw [if_neg hk, List.map_cons, keys_insert key value t]
      by_cases hmem : key ∈ t.map Prod.fst <;> simp [hmem, Ne.symm hk]

/-- A key that is bound comes behind the others if it has not come before. -/
theorem keys_insert_eraseDups {t : Table} {keys : List String} (h : t.map Prod.fst = keys.eraseDups)
    (key : String) (value : Value) :
    (Table.insert key value t).map Prod.fst = (keys ++ [key]).eraseDups := by
  rw [keys_insert, h, List.eraseDups_append]
  by_cases hmem : key ∈ keys <;> simp [List.removeAll, List.eraseDups_cons, hmem]

theorem keys_collect (name : String) : ∀ (statements : List Statement) (current : Option String)
    (found : Option Table) (keys : List String), (found.getD []).map Prod.fst = keys.eraseDups →
      ((collect name current found statements).getD []).map Prod.fst
        = (keys ++ (pairsUnder name current statements).map Prod.fst).eraseDups
  | [], _, _, keys, h => by simpa [collect, pairsUnder] using h
  | .pair key value :: rest, current, found, keys, h => by
    rw [collect, section?, pairsUnder]
    split_ifs
    · have hinsert := keys_insert_eraseDups h key value
      rw [keys_collect name rest current (some (Table.insert key value (found.getD []))) _ hinsert,
        List.map_cons, List.append_assoc, List.singleton_append]
    · exact keys_collect name rest current found keys h
  | .table n :: rest, current, found, keys, h => by
    refine keys_collect name rest (some n) _ keys ?_
    dsimp only
    split_ifs <;> exact h
  | .tableArray n :: rest, _, found, keys, h => keys_collect name rest none found keys h

/-- The keys of a table are those of its pairs, each where it comes first. -/
theorem keys_table? (d : Document) (name : String) :
    ((d.table? name).getD []).map Prod.fst
      = ((pairsUnder name (some "") d.statements).map Prod.fst).eraseDups :=
  keys_collect name d.statements (some "") none [] rfl

/-- A document has the statements of its text, and they are in sections. A look-up finds the last pair
with its key in the table of its name, and the keys of a table stand where they come first. -/
theorem get?_parse {content : String} {d : Document} (h : Document.parse content = .ok d) :
    IsLaidOut (withoutMark content.toList) d.statements ∧
    (∃ root sections, d.statements = inSections root sections) ∧
    ∀ root sections, d.statements = inSections root sections → ∀ name,
      (∀ key, d.get? name key = (pairsOf root sections name).reverse.lookup key) ∧
      ((d.table? name).getD []).map Prod.fst
        = ((pairsOf root sections name).map Prod.fst).eraseDups := by
  refine ⟨isLaidOut_of_parse h, exists_inSections _, fun root sections hsections name => ?_⟩
  have hpairs : pairsUnder name (some "") d.statements = pairsOf root sections name := by
    rw [hsections, pairsUnder_inSections]
  refine ⟨fun key => ?_, ?_⟩
  · rw [get?_eq, hpairs, lastValue?]
  · rw [keys_table?, hpairs]

/-- A table in two sections, with a table array of its name between them and a pair before both. -/
theorem get?_parse_interleaved :
    ∃ d, Document.parse ("x = 0\n[a]\nx = 1\ny = 2\n[[a]]\nx = 3\n"
        ++ "[ 'a' ] # again\n\"y\" = 4\r\nz = 5\ny = 6") = .ok d ∧
      d.get? "a" "x" = some (.integer 1) ∧ d.get? "a" "y" = some (.integer 6) ∧
      d.get? "" "x" = some (.integer 0) ∧ d.get? "" "y" = none ∧
      ((d.table? "a").getD []).map Prod.fst = ["x", "y", "z"] := by
  let root : List (String × Value) := [("x", .integer 0)]
  let sections : List Section := [⟨false, "a", [("x", .integer 1), ("y", .integer 2)]⟩,
    ⟨true, "a", [("x", .integer 3)]⟩,
    ⟨false, "a", [("y", .integer 4), ("z", .integer 5), ("y", .integer 6)]⟩]
  have hparse : Document.parse ("x = 0\n[a]\nx = 1\ny = 2\n[[a]]\nx = 3\n"
      ++ "[ 'a' ] # again\n\"y\" = 4\r\nz = 5\ny = 6") = .ok ⟨inSections root sections⟩ := by
    decide +kernel
  obtain ⟨-, -, hget⟩ := get?_parse hparse
  refine ⟨_, hparse, ?_, ?_, ?_, ?_, ?_⟩
  · rw [(hget root sections rfl "a").1]
    decide
  · rw [(hget root sections rfl "a").1]
    decide
  · rw [(hget root sections rfl "").1]
    decide
  · rw [(hget root sections rfl "").1]
    decide
  · rw [(hget root sections rfl "a").2]
    decide

end Document

end ConnectorCatalog.Toml
