import ConnectorCatalog.Proofs.Basic
import ConnectorCatalog.Toml.Basic

/-!
# What a look-up sees

A look-up in a document finds the last pair with its key among those that stand under the headers of
its table (`get?_eq`).
-/

namespace ConnectorCatalog.Toml

theorem Table.lookup_insert (key k : String) (v : Value) : ∀ t : Table,
    (Table.insert k v t).lookup key = if key = k then some v else t.lookup key
  | [] => by rw [Table.insert, lookup_cons_eq]
  | (k', v') :: t => by
    rw [Table.insert]
    split_ifs with hk h h
    · rw [lookup_cons_eq, if_pos (h.trans hk.symm)]
    · rw [lookup_cons_eq, lookup_cons_eq, if_neg (hk ▸ h), if_neg (hk ▸ h)]
    · rw [lookup_cons_eq, if_neg (h ▸ Ne.symm hk), Table.lookup_insert key k v t, if_pos h]
    · rw [lookup_cons_eq, lookup_cons_eq, Table.lookup_insert key k v t, if_neg h]

namespace Document

/-- The pairs under the headers of the table `name`, when the statements stand under `current`. -/
def pairsUnder (name : String) (current : Option String) : List Statement → List (String × Value)
  | [] => []
  | .pair key value :: rest =>
    if current = some name then (key, value) :: pairsUnder name current rest
    else pairsUnder name current rest
  | .table n :: rest => pairsUnder name (some n) rest
  | .tableArray _ :: rest => pairsUnder name none rest

/-- The value of the last pair with a key. -/
def lastValue? (key : String) (pairs : List (String × Value)) : Option Value :=
  pairs.reverse.lookup key

theorem lastValue?_cons (key k : String) (v : Value) (pairs : List (String × Value)) :
    lastValue? key ((k, v) :: pairs)
      = (lastValue? key pairs).or (if key = k then some v else none) := by
  simp [lastValue?, List.lookup_append, lookup_cons_eq]

theorem collect_bind_lookup (name key : String) :
    ∀ (statements : List Statement) (current : Option String) (found : Option Table),
      (collect name current found statements).bind (·.lookup key)
        = (lastValue? key (pairsUnder name current statements)).or
            (found.bind (·.lookup key))
  | [], _, _ => rfl
  | .pair k v :: rest, current, found => by
    rw [collect, pairsUnder, section?, collect_bind_lookup name key rest]
    by_cases hcurrent : current = some name
    · simp only [if_pos hcurrent, lastValue?_cons, Option.bind_some, Table.lookup_insert]
      cases lastValue? key (pairsUnder name current rest) <;> cases found <;>
        by_cases h : key = k <;> simp [h]
    · simp only [if_neg hcurrent]
  | .table n :: rest, current, found => by
    rw [collect, pairsUnder, section?, collect_bind_lookup name key rest]
    by_cases hn : n = name <;> cases found <;> simp [hn]
  | .tableArray n :: rest, current, found => by
    rw [collect, pairsUnder, section?, collect_bind_lookup name key rest]

/-- A look-up finds the last pair with the key under the headers of the table. -/
theorem get?_eq (d : Document) (name key : String) :
    d.get? name key = lastValue? key (pairsUnder name (some "") d.statements) := by
  rw [get?, table?, collect_bind_lookup]
  exact Option.or_none

end Document

end ConnectorCatalog.Toml
