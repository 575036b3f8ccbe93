import ConnectorCatalog.Proofs.Files.Place

/-!
# Trees as they are found

In a tree as a file system has it names may stand in directories, and a directory lists what stands in
it (`mem_namesBelow_of_node?`). Trees stay so as files are written and removed.
-/

namespace ConnectorCatalog.FileTree

variable {t : FileTree}

/-- A tree as it is found: the names in its directories may stand there, and the directories on the
way to the current one are listed where a path can name them. -/
structure WellFormed (t : FileTree) : Prop where
  names : ∀ e ∈ t.entries, ∀ name ∈ e.1.getLast?, Path.isEntryName name = true
  listed : ∀ place name, place ++ [name] <+: t.current → Path.isEntryName name = true →
    name ∈ t.namesBelow place

theorem mem_namesBelow {place : List String} {name : String} :
    name ∈ t.namesBelow place ↔ ∃ node, (place ++ [name], node) ∈ t.entries := by
  unfold namesBelow
  rw [List.mem_filterMap]
  constructor
  · rintro ⟨⟨names, node⟩, hmem, hname⟩
    dsimp only at hname
    split at hname
    · rename_i last hlast
      split_ifs at hname with hplace
      cases hname
      obtain ⟨front, rfl⟩ := List.getLast?_eq_some_iff.1 hlast
      rw [List.dropLast_concat] at hplace
      exact ⟨node, hplace ▸ hmem⟩
    · cases hname
  · rintro ⟨node, hmem⟩
    exact ⟨_, hmem, by simp⟩

theorem WellFormed.isEntryName_of_mem (h : t.WellFormed) {place : List String} {name : String}
    (hname : name ∈ t.namesBelow place) : Path.isEntryName name = true := by
  obtain ⟨node, hmem⟩ := mem_namesBelow.1 hname
  exact h.names _ hmem name List.getLast?_concat

theorem WellFormed.isEntryName_of_list (h : t.WellFormed) {dir : Path} {names : List String}
    (hlist : t.list dir = .ok names) {name : String} (hname : name ∈ names) :
    Path.isEntryName name = true := by
  unfold FileTree.list at hlist
  cases hfind : t.find dir with
  | error e => rw [hfind] at hlist; cases hlist
  | ok found =>
    rw [hfind] at hlist
    obtain ⟨place, _ | content⟩ := found <;> cases hlist
    exact h.isEntryName_of_mem hname

/-- What stands in a directory is listed there. -/
theorem WellFormed.mem_namesBelow_of_node? (h : t.WellFormed) {place : List String} {name : String}
    (hname : Path.isEntryName name = true) {node : FileNode}
    (hnode : t.node? (place ++ [name]) = some node) : name ∈ t.namesBelow place := by
  unfold node? at hnode
  split at hnode
  · rename_i hcurrent
    exact h.listed place name (List.isPrefixOf_iff_prefix.1 hcurrent) hname
  · obtain ⟨front, rest, hentries, -⟩ := List.lookup_eq_some_iff.1 hnode
    refine mem_namesBelow.2 ⟨node, ?_⟩
    rw [hentries]
    exact List.mem_append_right _ (List.mem_cons_self ..)

/-! ### Writing and removing -/

theorem wellFormed_empty : empty.WellFormed where
  names := nofun
  listed := by
    intro place name hcurrent hname
    cases place with
    | nil =>
      rw [List.nil_append, empty, List.cons_prefix_cons] at hcurrent
      rw [hcurrent.1] at hname
      exact absurd hname (by decide)
    | cons first place =>
      have := hcurrent.length_le
      simp [empty] at this

theorem WellFormed.put (h : t.WellFormed) {place : List String}
    (hplace : ∀ name ∈ place.getLast?, Path.isEntryName name = true) (node : FileNode) :
    (t.put place node).WellFormed where
  names := by
    intro e he name hname
    rcases List.mem_append.1 he with he | he
    · exact h.names e (List.mem_filter.1 he).1 name hname
    · rw [List.mem_singleton.1 he] at hname
      exact hplace name hname
  listed := by
    intro parent name hcurrent hname
    obtain ⟨old, hmem⟩ := mem_namesBelow.1 (h.listed parent name hcurrent hname)
    by_cases heq : parent ++ [name] = place
    · refine mem_namesBelow.2 ⟨node, List.mem_append_right _ ?_⟩
      rw [heq]
      exact List.mem_singleton_self _
    · refine mem_namesBelow.2 ⟨old, List.mem_append_left _ (List.mem_filter.2 ⟨hmem, ?_⟩)⟩
      simpa using heq

/-- Below a directory that is there, directories may be made whose names may stand there. -/
theorem WellFormed.makeDirectories (h : t.WellFormed) (base names : List String)
    (hbase : base <+: t.current) (hnames : ∀ name ∈ names, Path.isEntryName name = true) :
    (t.makeDirectories (base ++ names)).WellFormed := by
  unfold FileTree.makeDirectories
  refine (List.foldlRecOn (motive := fun t' : FileTree => t'.current = t.current ∧ t'.WellFormed)
    _ _ ⟨rfl, h⟩ fun t' ht' n _ => ?_).2
  unfold makeDirectory
  split
  · exact ht'
  · rename_i hnone
    refine ⟨ht'.1, ht'.2.put (fun name hname => ?_) _⟩
    rw [List.take_append] at hname hnone
    -- what is not there yet lies below `base`
    cases htake : names.take (n - base.length) with
    | nil =>
      rw [htake, List.append_nil] at hnone
      refine absurd ?_ hnone
      have := List.isPrefixOf_iff_prefix.2 ((List.take_prefix n base).trans hbase)
      simp [node?, ht'.1, this]
    | cons first rest =>
      rw [htake, List.getLast?_append_of_ne_nil _ (List.cons_ne_nil first rest), ← htake] at hname
      exact hnames name (List.mem_of_mem_take (List.mem_of_getLast? hname))

theorem WellFormed.writeFile (h : t.WellFormed) (base names : List String)
    (hbase : base <+: t.current) (hnames : ∀ name ∈ names, Path.isEntryName name = true)
    (hne : names ≠ []) (content : FileContent) :
    (t.writeFile (base ++ names) content).WellFormed := by
  refine WellFormed.put ?_ (fun name hname => ?_) _
  · rw [List.dropLast_append_of_ne_nil hne]
    exact h.makeDirectories base names.dropLast hbase
      fun name hname => hnames name (List.dropLast_subset _ hname)
  · rw [List.getLast?_append_of_ne_nil _ hne] at hname
    exact hnames name (List.mem_of_getLast? hname)

theorem WellFormed.remove (h : t.WellFormed) {place : List String} (hplace : ¬ place <+: t.current) :
    (t.remove place).WellFormed where
  names := fun e he => h.names e (List.mem_filter.1 he).1
  listed := by
    intro parent name hcurrent hname
    obtain ⟨node, hmem⟩ := mem_namesBelow.1 (h.listed parent name hcurrent hname)
    refine mem_namesBelow.2 ⟨node, List.mem_filter.2 ⟨hmem, ?_⟩⟩
    rw [Bool.not_eq_true', Bool.eq_false_iff, ne_eq, List.isPrefixOf_iff_prefix]
    exact fun hplace' => hplace (hplace'.trans hcurrent)

end ConnectorCatalog.FileTree
