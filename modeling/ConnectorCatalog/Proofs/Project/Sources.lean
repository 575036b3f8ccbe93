import ConnectorCatalog.Proofs.Files.Apart
import ConnectorCatalog.Proofs.Files.Distinct
import ConnectorCatalog.Proofs.SortedNames

/-!
# The sources of a project

The documents of a directory are its source files, all of them and each once, and the modules below a
root are its directories of modules (`areSources_of_documentsIn`, `exists_modules_of_modulesIn`).
What keeps them from being read is a file or a directory among them (`within_of_documentsIn`,
`within_of_modulesIn`).
-/

namespace ConnectorCatalog

/-- The path is `dir` or names something below it. -/
def Path.Within (dir path : Path) : Prop := ∃ names : List String, path = names.foldl Path.child dir

theorem Path.within_self (dir : Path) : dir.Within dir := ⟨[], rfl⟩

theorem Path.within_child (dir : Path) (name : String) : dir.Within (dir.child name) :=
  ⟨[name], rfl⟩

theorem Path.Within.of_child {dir path : Path} {name : String} (h : (dir.child name).Within path) :
    dir.Within path := by
  obtain ⟨names, rfl⟩ := h
  exact ⟨name :: names, rfl⟩

namespace FileTree

variable {t : FileTree} {dir : Path}

/-- The documents are the source files directly in a directory: all of them, in the order of the bytes
of their names, each with its path and its text. -/
structure AreSources (t : FileTree) (dir : Path) (documents : List Document) : Prop where
  ascending : (documents.map Document.name).Pairwise fun a b => utf8 a < utf8 b
  mem : ∀ name, name ∈ documents.map Document.name ↔
    Path.isEntryName name = true ∧ isSourceName name = true ∧ t.isFile (dir.child name) = true
  read : ∀ d ∈ documents, d.path = String.ofList (dir.child d.name) ∧
    t.readText (dir.child d.name) = .ok d.content

/-- The modules, by the names of their directories, are those in a directory: all of them, in the
order of the bytes of their names, each with its source files. -/
structure AreModules (t : FileTree) (dir : Path) (modules : List (String × List Document)) :
    Prop where
  ascending : (modules.map Prod.fst).Pairwise fun a b => utf8 a < utf8 b
  mem : ∀ name, name ∈ modules.map Prod.fst ↔
    Path.isEntryName name = true ∧ t.isDirectory (dir.child name) = true
  sources : ∀ m ∈ modules, t.AreSources (dir.child m.1) m.2

/-- Only a directory can be listed. -/
theorem list_eq_ok {names : List String} (h : t.list dir = .ok names) :
    ∃ place, t.find dir = .ok (place, .directory) ∧ names = t.namesBelow place := by
  unfold list at h
  rcases hfind : t.find dir with e | ⟨place, _ | content⟩ <;> rw [hfind] at h
  · cases h
  · cases h
    exact ⟨place, rfl, rfl⟩
  · cases h

/-- A directory lists what can be found in it. -/
theorem mem_of_list (ht : t.WellFormed) {names : List String} (h : t.list dir = .ok names)
    {name : String} (hname : Path.isEntryName name = true) {place : List String} {node : FileNode}
    (hfind : t.find (dir.child name) = .ok (place, node)) : name ∈ names := by
  obtain ⟨parent, hdir, rfl⟩ := list_eq_ok h
  have hne : dir ≠ [] := (find_eq_ok.1 hdir).2.1
  obtain ⟨-, parent', hdir', rfl, hnode⟩ := (find_child_eq_ok hname hne).1 hfind
  rw [hdir] at hdir'
  cases hdir'
  exact ht.mem_namesBelow_of_node? hname hnode

theorem Distinct.list (hd : t.Distinct) {names : List String} (h : t.list dir = .ok names) :
    names.Nodup := by
  obtain ⟨place, -, rfl⟩ := list_eq_ok h
  exact hd.namesBelow place

theorem readDocuments_eq_ok {names : List String} {documents : List Document}
    (h : t.readDocuments dir names = .ok documents) : documents.map Document.name = names ∧
      ∀ d ∈ documents, d.path = String.ofList (dir.child d.name) ∧
        t.readText (dir.child d.name) = .ok d.content := by
  induction names generalizing documents with
  | nil =>
    cases h
    exact ⟨rfl, nofun⟩
  | cons name names ih =>
    unfold readDocuments at h
    dsimp only at h
    split at h
    · cases h
    · rename_i content hread
      obtain ⟨rest, hrest, ⟨⟩⟩ := bind_eq_ok.1 h
      obtain ⟨hnames, hdocuments⟩ := ih hrest
      exact ⟨by rw [List.map_cons, hnames], List.forall_mem_cons.2 ⟨⟨rfl, hread⟩, hdocuments⟩⟩

theorem areSources_of_documentsIn (ht : t.WellFormed) (hd : t.Distinct) {documents : List Document}
    (h : t.documentsIn dir = .ok documents) : t.AreSources dir documents := by
  obtain ⟨names, hsources, h⟩ := bind_eq_ok.1 h
  obtain ⟨hnames, hread⟩ := readDocuments_eq_ok h
  unfold sourceNames at hsources
  split at hsources
  · cases hsources
  · rename_i all hlist
    cases hsources
    refine ⟨?_, fun name => ?_, hread⟩
    · rw [hnames]
      exact ascending_sortNames (List.filter_sublist.nodup (hd.list hlist))
    · rw [hnames, (sortNames_perm _).mem_iff, List.mem_filter, Bool.and_eq_true]
      constructor
      · rintro ⟨hmem, hfile, hsource⟩
        exact ⟨ht.isEntryName_of_list hlist hmem, hsource, hfile⟩
      · rintro ⟨hname, hsource, hfile⟩
        obtain ⟨place, content, hfind⟩ := isFile_eq_true.1 hfile
        exact ⟨mem_of_list ht hlist hname hfind, hfile, hsource⟩

theorem readModules_eq_ok {moduleName : String → String} {names : List String}
    {modules : List Module} (h : t.readModules dir moduleName names = .ok modules) :
    ∃ found : List (String × List Document), found.map Prod.fst = names ∧
      modules = found.map (fun m => ⟨moduleName m.1, m.2⟩) ∧
      ∀ m ∈ found, t.documentsIn (dir.child m.1) = .ok m.2 := by
  induction names generalizing modules with
  | nil =>
    cases h
    exact ⟨[], rfl, rfl, nofun⟩
  | cons name names ih =>
    obtain ⟨documents, hdocuments, h⟩ := bind_eq_ok.1 h
    obtain ⟨rest, hrest, ⟨⟩⟩ := bind_eq_ok.1 h
    obtain ⟨found, rfl, rfl, hfound⟩ := ih hrest
    exact ⟨(name, documents) :: found, rfl, rfl, List.forall_mem_cons.2 ⟨hdocuments, hfound⟩⟩

/-- The names of the directories in a directory, in order. -/
theorem directoryNames_eq_ok (ht : t.WellFormed) (hd : t.Distinct) {names : List String}
    (h : t.directoryNames dir = .ok names) : names.Pairwise (fun a b => utf8 a < utf8 b) ∧
      (dir ≠ [] → ∀ name, name ∈ names ↔
        Path.isEntryName name = true ∧ t.isDirectory (dir.child name) = true) := by
  unfold directoryNames at h
  split_ifs at h with hdirectory
  · split at h
    · cases h
    · rename_i all hlist
      cases h
      refine ⟨ascending_sortNames (List.filter_sublist.nodup (hd.list hlist)), fun _ name => ?_⟩
      rw [(sortNames_perm _).mem_iff, List.mem_filter]
      constructor
      · rintro ⟨hmem, hchild⟩
        exact ⟨ht.isEntryName_of_list hlist hmem, hchild⟩
      · rintro ⟨hname, hchild⟩
        obtain ⟨place, hfind⟩ := isDirectory_eq_true.1 hchild
        exact ⟨mem_of_list ht hlist hname hfind, hchild⟩
  · cases h
    refine ⟨List.Pairwise.nil, fun hne name => iff_of_false List.not_mem_nil ?_⟩
    rintro ⟨hname, hchild⟩
    obtain ⟨place, hfind⟩ := isDirectory_eq_true.1 hchild
    obtain ⟨-, parent, hdir, -, -⟩ := (find_child_eq_ok hname hne).1 hfind
    exact hdirectory (isDirectory_eq_true.2 ⟨parent, hdir⟩)

theorem exists_modules_of_modulesIn (ht : t.WellFormed) (hd : t.Distinct) {root : Path}
    {moduleName : String → String} {modules : List Module}
    (h : t.modulesIn root moduleName = .ok modules) :
    ∃ found, modules = found.map (fun m => ⟨moduleName m.1, m.2⟩) ∧
      t.AreModules (root.child modulesName) found := by
  obtain ⟨names, hnames, h⟩ := bind_eq_ok.1 h
  obtain ⟨found, rfl, rfl, hfound⟩ := readModules_eq_ok h
  obtain ⟨hascending, hmem⟩ := directoryNames_eq_ok ht hd hnames
  exact ⟨found, rfl, hascending, hmem (Path.child_ne_nil (by decide) root),
    fun m hm => areSources_of_documentsIn ht hd (hfound m hm)⟩

/-! ### What cannot be read -/

theorem within_of_readDocuments {e : ProjectError} {names : List String}
    (h : t.readDocuments dir names = .error e) :
    ∃ path cause, e = .io path cause ∧ dir.Within path := by
  induction names with
  | nil => cases h
  | cons name names ih =>
    unfold readDocuments at h
    dsimp only at h
    split at h
    · cases h
      exact ⟨_, _, rfl, dir.within_child name⟩
    · obtain h | ⟨_, -, h⟩ := bind_eq_error.1 h
      · exact ih h
      · cases h

theorem within_of_documentsIn {e : ProjectError} (h : t.documentsIn dir = .error e) :
    ∃ path cause, e = .io path cause ∧ dir.Within path := by
  obtain h | ⟨names, -, h⟩ := bind_eq_error.1 h
  · unfold sourceNames at h
    split at h
    · cases h
      exact ⟨_, _, rfl, dir.within_self⟩
    · cases h
  · exact within_of_readDocuments h

theorem within_of_readModules {moduleName : String → String} {e : ProjectError} {names : List String}
    (h : t.readModules dir moduleName names = .error e) :
    ∃ path cause, e = .io path cause ∧ dir.Within path := by
  induction names with
  | nil => cases h
  | cons name names ih =>
    obtain h | ⟨_, -, h⟩ := bind_eq_error.1 h
    · obtain ⟨path, cause, rfl, hwithin⟩ := within_of_documentsIn h
      exact ⟨path, cause, rfl, hwithin.of_child⟩
    · obtain h | ⟨_, -, h⟩ := bind_eq_error.1 h
      · exact ih h
      · cases h

theorem within_of_modulesIn {root : Path} {moduleName : String → String} {e : ProjectError}
    (h : t.modulesIn root moduleName = .error e) :
    ∃ path cause, e = .io path cause ∧ root.Within path := by
  obtain h | ⟨names, -, h⟩ := bind_eq_error.1 h
  · unfold directoryNames at h
    split_ifs at h
    split at h
    · cases h
      exact ⟨_, _, rfl, root.within_child modulesName⟩
    · cases h
  · obtain ⟨path, cause, rfl, hwithin⟩ := within_of_readModules h
    exact ⟨path, cause, rfl, hwithin.of_child⟩

end FileTree

end ConnectorCatalog
