import ConnectorCatalog.Proofs.Toml.KeyClash
import ConnectorCatalog.Proofs.Toml.Lookup

/-!
# Documents by their keys

A document is entries: statements whose keys are as they are written. Names forget how a key is
written, and some keys with other texts get one name; but where every key is whole a look-up sees the
pairs with the texts that are asked for and no others (`Document.get?_ofEntries`), and whole keys have
one name exactly if they stand for the same texts (`keyName_eq_iff`).
-/

namespace ConnectorCatalog.Toml

/-- A statement with its key as it is written. -/
inductive Entry
  | pair (key : Key) (value : Value)
  | table (key : Key)
  | tableArray (key : Key)
deriving DecidableEq, Repr

namespace Entry

/-- The key of an entry. -/
def key : Entry → Key
  | pair k _ => k
  | table k => k
  | tableArray k => k

/-- The statement that an entry is read as. -/
def statement : Entry → Statement
  | pair k value => .pair (keyName k.source) value
  | table k => .table (keyName k.source)
  | tableArray k => .tableArray (keyName k.source)

/-- The text is the entry. -/
inductive Stands : List Char → Entry → Prop
  | pair {k : Key} {g g' source : List Char} {v : Value} : k.IsWritten → IsGapText g →
      IsGapText g' → IsValue source v → Stands (k.source ++ g ++ '=' :: (g' ++ source)) (.pair k v)
  | table {k : Key} {g g' : List Char} : IsGapText g → k.IsWritten → IsGapText g' →
      Stands ('[' :: (g ++ k.source ++ g' ++ [']'])) (.table k)
  | tableArray {k : Key} {g g' : List Char} : IsGapText g → k.IsWritten → IsGapText g' →
      Stands ('[' :: '[' :: (g ++ k.source ++ g' ++ [']', ']'])) (.tableArray k)

end Entry

variable {s : List Char}

theorem Statement.Stands.exists_entry {statement : Statement} (h : statement.Stands s) :
    ∃ e : Entry, e.Stands s ∧ e.statement = statement := by
  cases h with
  | pair hkey hg hg' hvalue =>
    obtain ⟨k, hk, rfl⟩ := isKey_iff.1 hkey
    exact ⟨.pair k _, .pair hk hg hg' hvalue, rfl⟩
  | table hg hkey hg' =>
    obtain ⟨k, hk, rfl⟩ := isKey_iff.1 hkey
    exact ⟨.table k, .table hg hk hg', rfl⟩
  | tableArray hg hkey hg' =>
    obtain ⟨k, hk, rfl⟩ := isKey_iff.1 hkey
    exact ⟨.tableArray k, .tableArray hg hk hg', rfl⟩

/-- The text is these entries, each on a line, with empty lines between them. -/
inductive AreEntriesOf : List Char → List Entry → Prop
  | nil {lines : List Char} : AreEmptyLines lines → AreEntriesOf lines []
  | cons {lines source g b r : List Char} {e : Entry} {entries : List Entry} :
      AreEmptyLines lines → e.Stands source → IsGapText g → (IsBreak b ∨ b = [] ∧ r = []) →
      AreEntriesOf r entries → AreEntriesOf (lines ++ (source ++ (g ++ b) ++ r)) (e :: entries)

theorem IsLaidOut.exists_entries {statements : List Statement} (h : IsLaidOut s statements) :
    ∃ entries, AreEntriesOf s entries ∧ entries.map Entry.statement = statements := by
  induction h with
  | nil hlines => exact ⟨[], .nil hlines, rfl⟩
  | cons hlines hstands hg hb _ ih =>
    obtain ⟨e, he, rfl⟩ := hstands.exists_entry
    obtain ⟨entries, hentries, rfl⟩ := ih
    exact ⟨e :: entries, .cons hlines he hg hb hentries, rfl⟩

/-! ## Looking up by texts -/

theorem map_dotted_eq_some_iff {current : Option (List (List Char))} {table : List (List Char)}
    (hcurrent : ∀ ts ∈ current, ArePieces ts) (htable : ArePieces table) :
    current.map dotted = some (dotted table) ↔ current = some table := by
  cases current with
  | none => simp
  | some ts => simpa using dotted_inj (hcurrent ts rfl) htable

/-- A whole key has the name with the pieces that it stands for. -/
theorem Key.dotted_eq_keyName_iff {k : Key} (h : k.IsWritten) (hwhole : k.IsWhole)
    {key : List (List Char)} (hkey : ArePieces key) :
    dotted key = keyName k.source ↔ k.texts? = some key := by
  rw [keyName_source h, dotted_inj hkey (arePieces_kept h), Key.texts?_of_isWhole h hwhole,
    Option.some_inj, eq_comm]

/-- The values of the pairs whose keys stand for `key`, under the headers whose keys stand for
`table`, when the entries stand under `current`. -/
def valuesUnder (table key : List (List Char)) (current : Option (List (List Char))) :
    List Entry → List Value
  | [] => []
  | .pair k value :: rest =>
    if current = some table ∧ k.texts? = some key then
      value :: valuesUnder table key current rest
    else valuesUnder table key current rest
  | .table k :: rest => valuesUnder table key k.texts? rest
  | .tableArray _ :: rest => valuesUnder table key none rest

namespace Document

/-- The document of some entries. -/
def ofEntries (entries : List Entry) : Document := ⟨entries.map Entry.statement⟩

theorem exists_entries {content : String} {d : Document} (h : Document.parse content = .ok d) :
    ∃ entries, AreEntriesOf (withoutMark content.toList) entries ∧ d = ofEntries entries := by
  obtain ⟨entries, hentries, hstatements⟩ := (isLaidOut_of_parse h).exists_entries
  exact ⟨entries, hentries, by rw [ofEntries, hstatements]⟩

section Lookup

variable {entries : List Entry} {table key : List (List Char)}

theorem lastValue?_entries (h : ∀ e ∈ entries, e.key.IsWritten ∧ e.key.IsWhole)
    (htable : ArePieces table) (hkey : ArePieces key) (current : Option (List (List Char)))
    (hcurrent : ∀ ts ∈ current, ArePieces ts) :
    lastValue? (dotted key)
        (pairsUnder (dotted table) (current.map dotted) (entries.map Entry.statement))
      = (valuesUnder table key current entries).getLast? := by
  -- A header changes `current` for the entries behind it.
  induction entries generalizing current with
  | nil => rfl
  | cons e entries ih =>
    obtain ⟨⟨hwritten, hwhole⟩, hrest⟩ := List.forall_mem_cons.1 h
    have ih := ih hrest
    cases e with
    | pair k value =>
      have hunder := map_dotted_eq_some_iff hcurrent htable
      have hsame := Key.dotted_eq_keyName_iff (k := k) hwritten hwhole hkey
      rw [List.map_cons, Entry.statement, pairsUnder, valuesUnder]
      by_cases hin : current = some table
      · rw [if_pos (hunder.2 hin), lastValue?_cons, ih current hcurrent]
        by_cases hk : k.texts? = some key
        · rw [if_pos (hsame.2 hk), if_pos ⟨hin, hk⟩, List.getLast?_cons]
          cases (valuesUnder table key current entries).getLast? <;> rfl
        · rw [if_neg fun heq => hk (hsame.1 heq), if_neg fun hboth => hk hboth.2, Option.or_none]
      · rw [if_neg fun heq => hin (hunder.1 heq), if_neg fun hboth => hin hboth.1,
          ih current hcurrent]
    | table k =>
      have htexts := Key.texts?_of_isWhole (k := k) hwritten hwhole
      have hmap : some (keyName k.source) = k.texts?.map dotted := by
        rw [htexts, keyName_source (k := k) hwritten, Option.map_some]
      rw [List.map_cons, Entry.statement, pairsUnder, valuesUnder, hmap]
      refine ih _ fun ts hts => ?_
      rw [htexts] at hts
      cases hts
      exact arePieces_kept hwritten
    | tableArray k => exact ih none fun ts hts => absurd hts (Option.not_mem_none ts)

/-- A look-up in a document of whole keys finds the last pair with the texts of its key under the
headers with those of its table. The pairs before the first header stand under the table of one empty
text. -/
theorem get?_ofEntries (h : ∀ e ∈ entries, e.key.IsWritten ∧ e.key.IsWhole)
    (htable : ArePieces table) (hkey : ArePieces key) :
    (ofEntries entries).get? (dotted table) (dotted key)
      = (valuesUnder table key (some [[]]) entries).getLast? := by
  rw [get?_eq]
  refine lastValue?_entries h htable hkey (some [[]]) fun ts hts => ?_
  cases hts
  exact ⟨by decide, by decide⟩

end Lookup

end Document

/-! ## Keys told apart -/

/-- When keys are told apart. Two keys have one name exactly if the same is kept of both. The texts of
a key are kept exactly if it is whole, so whole keys have one name exactly if they stand for the same
texts, while a key that is not whole has a namesake. The keys are the texts that the grammar takes for
one. Every document is entries, and if their keys are whole a look-up finds the last pair with the texts
of its key under the headers with those of its table. -/
theorem keyName_eq_iff {k l : Key} (hk : k.IsWritten) (hl : l.IsWritten) :
    (keyName k.source = keyName l.source ↔ k.kept = l.kept) ∧
    (k.IsWhole → l.IsWhole → (keyName k.source = keyName l.source ↔ k.texts? = l.texts?)) ∧
    (∀ texts, k.texts? = some texts → (k.kept = texts ↔ k.IsWhole) ∧ (¬ k.IsWhole → k.HasNamesake)) ∧
    (∀ source, IsKey source ↔ ∃ m : Key, m.IsWritten ∧ m.source = source) ∧
    (∀ content d, Document.parse content = .ok d → ∃ entries,
      AreEntriesOf (withoutMark content.toList) entries ∧ d = .ofEntries entries) ∧
    ∀ entries : List Entry, (∀ e ∈ entries, e.key.IsWritten ∧ e.key.IsWhole) →
      ∀ table key, ArePieces table → ArePieces key →
        (Document.ofEntries entries).get? (dotted table) (dotted key)
          = (valuesUnder table key (some [[]]) entries).getLast? := by
  have hname : keyName k.source = keyName l.source ↔ k.kept = l.kept := by
    rw [keyName_source hk, keyName_source hl, dotted_inj (arePieces_kept hk) (arePieces_kept hl)]
  refine ⟨hname, fun hwhole hwhole' => ?_,
    fun texts htexts => ⟨Key.kept_eq_iff hk htexts, Key.hasNamesake hk htexts⟩, fun _ => isKey_iff,
    fun _ _ h => Document.exists_entries h,
    fun _ h _ _ htable hkey => Document.get?_ofEntries h htable hkey⟩
  rw [hname, Key.texts?_of_isWhole hk hwhole, Key.texts?_of_isWhole hl hwhole', Option.some_inj]

/-- Keys in quotes of both kinds, with the same texts and with others, and a key that is not whole. -/
theorem keyName_eq_iff_in_quotes :
    IsKey "\"b c\"".toList ∧ keyName "\"b c\"".toList = keyName "'b c'".toList ∧
    keyName "\"it's\" . x".toList ≠ keyName "its.x".toList ∧
    (∃ k : Key, k.source = "\"a\\tb\"".toList ∧ k.HasNamesake) ∧
    ∃ d, Document.parse ("'a' = 1\n[ \"it's\" . x ]\n\"b c\" = 2\n'b c' = 3\n"
        ++ "[[ its.x ]]\n\"b c\" = 4\n") = .ok d ∧
      d.get? "it's.x" "b c" = some (.integer 3) ∧ d.get? "" "a" = some (.integer 1) := by
  let double : Key := ⟨.quoted '"' [.plain 'b', .plain ' ', .plain 'c'], []⟩
  let single : Key := ⟨.quoted '\'' [.plain 'b', .plain ' ', .plain 'c'], []⟩
  let table : Key := ⟨.quoted '"' [.plain 'i', .plain 't', .plain '\'', .plain 's'],
    [⟨[' '], [' '], .bare ['x']⟩]⟩
  let array : Key := ⟨.bare ['i', 't', 's'], [⟨[], [], .bare ['x']⟩]⟩
  let escaped : Key := ⟨.quoted '"' [.plain 'a', .escape 't', .plain 'b'], []⟩
  let entries : List Entry := [.pair ⟨.quoted '\'' [.plain 'a'], []⟩ (.integer 1), .table table,
    .pair double (.integer 2), .pair single (.integer 3), .tableArray array, .pair double (.integer 4)]
  obtain ⟨-, hsame, -, hkey, -, hget⟩ := @keyName_eq_iff double single (by decide) (by decide)
  obtain ⟨-, hother, -⟩ := @keyName_eq_iff table array (by decide) (by decide)
  obtain ⟨-, -, htexts, -⟩ := @keyName_eq_iff escaped single (by decide) (by decide)
  refine ⟨(hkey _).2 ⟨double, by decide, by decide⟩, (hsame (by decide) (by decide)).2 rfl,
    mt (hother (by decide) (by decide)).1 (by decide), ⟨escaped, by decide, ?_⟩,
    .ofEntries entries, by decide +kernel, ?_, ?_⟩
  · exact (htexts [['a', '\t', 'b']] (by decide)).2 (by decide)
  · exact (hget entries (by decide) ["it's".toList, ['x']] ["b c".toList] (by decide) (by decide)).trans
      (by decide)
  · exact (hget entries (by decide) [[]] [['a']] (by decide) (by decide)).trans (by decide)

/-- Keys that stand for other texts get one name: quotes in a string are taken for those around it, an
escape is not undone, and a string is cut at the dots in it. So a pair takes the place of another. -/
theorem keyName_shared :
    (∃ k l : Key, k.IsWritten ∧ l.IsWritten ∧ k.source = "a".toList ∧ l.source = "\"'a'\"".toList ∧
      k.texts? = some [['a']] ∧ l.texts? = some ["'a'".toList] ∧
      keyName k.source = keyName l.source) ∧
    (∃ k l : Key, k.IsWritten ∧ l.IsWritten ∧ k.source = "'\\t'".toList ∧
      l.source = "\"\\t\"".toList ∧ k.texts? = some ["\\t".toList] ∧ l.texts? = some [['\t']] ∧
      keyName k.source = keyName l.source) ∧
    (∃ k l : Key, k.IsWritten ∧ l.IsWritten ∧ k.source = "a.b".toList ∧
      l.source = "\"a . b\"".toList ∧ k.texts? = some [['a'], ['b']] ∧
      l.texts? = some ["a . b".toList] ∧ keyName k.source = keyName l.source) ∧
    ∃ d, Document.parse "a = 1\n\"'a'\" = 2\n" = .ok d ∧ d.get? "" "a" = some (.integer 2) :=
  ⟨⟨⟨.bare ['a'], []⟩, ⟨.quoted '"' [.plain '\'', .plain 'a', .plain '\''], []⟩, by decide, by decide,
      by decide, by decide, by decide, by decide, by decide⟩,
    ⟨⟨.quoted '\'' [.plain '\\', .plain 't'], []⟩, ⟨.quoted '"' [.escape 't'], []⟩, by decide,
      by decide, by decide, by decide, by decide, by decide, by decide⟩,
    ⟨⟨.bare ['a'], [⟨[], [], .bare ['b']⟩]⟩,
      ⟨.quoted '"' [.plain 'a', .plain ' ', .plain '.', .plain ' ', .plain 'b'], []⟩, by decide,
      by decide, by decide, by decide, by decide, by decide, by decide⟩,
    ⟨[.pair "a" (.integer 1), .pair "a" (.integer 2)]⟩, by decide +kernel, by decide⟩

end ConnectorCatalog.Toml
