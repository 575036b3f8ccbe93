/-!
# TOML documents

A document is its statements in order: pairs, table headers and headers of table arrays. A look-up
sees the pairs that stand under a table's headers, or before the first header for the table without
a name; the last pair with a key gives its value, the first one its place. Pairs under a table array
are seen by no look-up.
-/

namespace ConnectorCatalog.Toml

/-- A value. Everything that is no string, decimal integer of 64 bits or truth value is kept as it
is written. -/
inductive Value
  | string (text : String)
  | integer (value : Int)
  | boolean (value : Bool)
  | other (source : String)
deriving DecidableEq, Repr

/-- A statement of a document. -/
inductive Statement
  | pair (key : String) (value : Value)
  | table (name : String)
  | tableArray (name : String)
deriving DecidableEq, Repr

/-- The pairs of a table in order, each key once. -/
abbrev Table := List (String × Value)

/-- Binds a key: in its place if the table has it, at the end otherwise. -/
def Table.insert (key : String) (value : Value) : Table → Table
  | [] => [(key, value)]
  | (k, v) :: rest => if k = key then (k, value) :: rest else (k, v) :: Table.insert key value rest

/-- A document. -/
structure Document where
  statements : List Statement
deriving DecidableEq, Repr

namespace Document

/-- The table that a statement list is under once its first statement is read: `none` under a table
array. -/
def section? (current : Option String) : Statement → Option String
  | .pair _ _ => current
  | .table name => some name
  | .tableArray _ => none

/-- Adds to `found` what `statements` say on the table `name`, when they stand under `current`. -/
def collect (name : String) (current : Option String) (found : Option Table) :
    List Statement → Option Table
  | [] => found
  | s :: rest =>
    let found := match s with
      | .pair key value =>
        if current = some name then some (Table.insert key value (found.getD [])) else found
      | .table n => if n = name then some (found.getD []) else found
      | .tableArray _ => found
    collect name (section? current s) found rest

/-- The table called `name`, if the document has it. The table without a name is there once it has
a pair. -/
def table? (d : Document) (name : String) : Option Table := collect name (some "") none d.statements

/-- The value of a key in a table. -/
def get? (d : Document) (table key : String) : Option Value :=
  (d.table? table).bind fun t => t.lookup key

/-- A string that is not empty. -/
def text? (d : Document) (table key : String) : Option String :=
  match d.get? table key with
  | some (.string s) => if s.isEmpty then none else some s
  | _ => none

/-- An integer. -/
def integer? (d : Document) (table key : String) : Option Int :=
  match d.get? table key with
  | some (.integer n) => some n
  | _ => none

end Document

end ConnectorCatalog.Toml
