import ConnectorCatalog.Proofs.Files.Dotted
import ConnectorCatalog.Proofs.Project.Nearest

/-!
# Loading a path with a dot in front of it

What a relative path is loaded as with `./` before it is what it is loaded as without, but for the
paths in the result, which have the dot before them too (`load_dotted`). One search ends otherwise: that
for the root around a file, if it comes to the current directory and finds a manifest there. The
current directory is the empty path then, and as that cannot be listed the project in it is not loaded
(`bare_name_misses_project`).
-/

namespace ConnectorCatalog

/-- A document with its path dotted. -/
def Document.dotted (d : Document) : Document :=
  { d with path := String.ofList (Path.ofString d.path).dotted }

/-- A module with the paths of its documents dotted. -/
def Module.dotted (m : Module) : Module := { m with documents := m.documents.map Document.dotted }

/-- A project with its root and the paths of its documents dotted. -/
def Project.dotted (p : Project) : Project :=
  { p with
    sourceRoot := String.ofList (Path.ofString p.sourceRoot).dotted
    modules := p.modules.map Module.dotted }

/-- An error with the path that it names dotted. -/
def ProjectError.dotted : ProjectError → ProjectError
  | .projectNotFound path => .projectNotFound path.dotted
  | .io path cause => .io path.dotted cause
  | .invalidManifest path cause => .invalidManifest path.dotted cause
  | .invalidMetadata path cause => .invalidMetadata path.dotted cause
  | .noCompiledPackage package => .noCompiledPackage package

section

variable {α β γ : Type}

/-- A result with the paths in it dotted, by `f` in what succeeds. -/
def dottedResult (f : α → α) : Except ProjectError α → Except ProjectError α
  | .ok a => .ok (f a)
  | .error e => .error e.dotted

/-- What goes on from a result with dotted paths has dotted paths, if it has them from each outcome. -/
theorem dottedResult_bind {f : α → α} {g : β → β} {x : Except ProjectError α}
    {k k' : α → Except ProjectError β} (h : ∀ a, x = .ok a → k' (f a) = dottedResult g (k a)) :
    dottedResult f x >>= k' = dottedResult g (x >>= k) := by
  cases x with
  | error e => rfl
  | ok a => exact h a rfl

end

namespace FileTree

variable {t : FileTree} {root : Path}

theorem readDocuments_dotted {dir : Path} (hdir : dir.isAbsolute = false) {names : List String}
    (hnames : ∀ name ∈ names, Path.isEntryName name = true) :
    t.readDocuments dir.dotted names
      = dottedResult (List.map Document.dotted) (t.readDocuments dir names) := by
  induction names with
  | nil => rfl
  | cons name names ih =>
    obtain ⟨hname, hrest⟩ := List.forall_mem_cons.1 hnames
    have hread := readText_dotted (t := t) (Path.child_ne_nil hname dir)
      ((Path.isAbsolute_child hname dir).trans hdir)
    unfold readDocuments
    rw [Path.dotted_child hname]
    dsimp only
    rw [hread]
    split
    · rfl
    · rw [ih hrest]
      refine dottedResult_bind fun rest _ => ?_
      change Except.ok _ = Except.ok _
      simp [Document.dotted, Path.ofString]

theorem sourceNames_dotted (ht : t.WellFormed) {dir : Path} (hne : dir ≠ [])
    (hdir : dir.isAbsolute = false) :
    t.sourceNames dir.dotted = dottedResult id (t.sourceNames dir) := by
  unfold sourceNames
  rw [list_dotted hne hdir]
  cases hlist : t.list dir with
  | error e => rfl
  | ok names =>
    refine congrArg (fun names => Except.ok (sortNames names)) (List.filter_congr fun n hn => ?_)
    have hname := ht.isEntryName_of_list hlist hn
    rw [Path.dotted_child hname, isFile_dotted (Path.child_ne_nil hname dir)
      ((Path.isAbsolute_child hname dir).trans hdir)]

theorem documentsIn_dotted (ht : t.WellFormed) {dir : Path} (hne : dir ≠ [])
    (hdir : dir.isAbsolute = false) : t.documentsIn dir.dotted
      = dottedResult (List.map Document.dotted) (t.documentsIn dir) := by
  unfold documentsIn
  rw [sourceNames_dotted ht hne hdir]
  exact dottedResult_bind fun names hnames =>
    readDocuments_dotted hdir fun name hname => (of_mem_sourceNames ht hnames hname).1

theorem directoryNames_dotted (ht : t.WellFormed) {dir : Path} (hne : dir ≠ [])
    (hdir : dir.isAbsolute = false) :
    t.directoryNames dir.dotted = dottedResult id (t.directoryNames dir) := by
  unfold directoryNames
  rw [isDirectory_dotted hne hdir, list_dotted hne hdir]
  split_ifs
  · cases hlist : t.list dir with
    | error e => rfl
    | ok names =>
      refine congrArg (fun names => Except.ok (sortNames names)) (List.filter_congr fun n hn => ?_)
      have hname := ht.isEntryName_of_list hlist hn
      rw [Path.dotted_child hname, isDirectory_dotted (Path.child_ne_nil hname dir)
        ((Path.isAbsolute_child hname dir).trans hdir)]
  · rfl

theorem readModules_dotted (ht : t.WellFormed) {dir : Path} (hdir : dir.isAbsolute = false)
    (moduleName : String → String) {names : List String}
    (hnames : ∀ name ∈ names, Path.isEntryName name = true) :
    t.readModules dir.dotted moduleName names
      = dottedResult (List.map Module.dotted) (t.readModules dir moduleName names) := by
  induction names with
  | nil => rfl
  | cons name names ih =>
    obtain ⟨hname, hrest⟩ := List.forall_mem_cons.1 hnames
    unfold readModules
    rw [Path.dotted_child hname, documentsIn_dotted ht (Path.child_ne_nil hname dir)
      ((Path.isAbsolute_child hname dir).trans hdir)]
    refine dottedResult_bind fun documents _ => ?_
    rw [ih hrest]
    exact dottedResult_bind fun rest _ => rfl

theorem modulesIn_dotted (ht : t.WellFormed) (hroot : root.isAbsolute = false)
    (moduleName : String → String) : t.modulesIn root.dotted moduleName
      = dottedResult (List.map Module.dotted) (t.modulesIn root moduleName) := by
  have hmodules : Path.isEntryName modulesName = true := by decide
  have hdir := (Path.isAbsolute_child hmodules root).trans hroot
  unfold modulesIn
  dsimp only
  rw [Path.dotted_child hmodules, directoryNames_dotted ht (Path.child_ne_nil hmodules root) hdir]
  exact dottedResult_bind fun names hnames =>
    readModules_dotted ht hdir moduleName fun name hname => (of_mem_directoryNames ht hnames hname).1

theorem packageOf_dotted (hroot : root.IsUndotted) (manifest : Toml.Document) :
    packageOf root.dotted manifest = packageOf root manifest := by
  unfold packageOf Path.fileName
  rw [Path.fileName?_dotted hroot]

/-- There is a manifest in the current directory, and it can be read. -/
def HasManifest (t : FileTree) : Prop :=
  ∃ content manifest, t.readText (Path.child [] manifestName) = .ok content ∧
    Toml.Document.parse content = .ok manifest

theorem loadBuild_dotted (ht : t.WellFormed) (hroot : root.IsUndotted)
    (hmanifest : root = [] → ¬ t.HasManifest) :
    t.loadBuild root.dotted = dottedResult Project.dotted (t.loadBuild root) := by
  have hname : Path.isEntryName manifestName = true := by decide
  have hrelative := (Path.isAbsolute_child hname root).trans hroot.isAbsolute
  unfold loadBuild
  dsimp only
  rw [Path.dotted_child hname, readText_dotted (Path.child_ne_nil hname root) hrelative]
  split
  · rfl
  rename_i content hcontent
  split
  · rfl
  rename_i manifest hparse
  have hne : root ≠ [] := by
    rintro rfl
    exact hmanifest rfl ⟨content, manifest, hcontent, hparse⟩
  rw [packageOf_dotted hroot, documentsIn_dotted ht hne hroot.isAbsolute]
  refine dottedResult_bind fun documents _ => ?_
  rw [modulesIn_dotted ht hroot.isAbsolute]
  refine dottedResult_bind fun modules _ => ?_
  change Except.ok _ = Except.ok _
  simp [Project.dotted, Module.dotted, Path.ofString]

theorem loadBala_dotted (ht : t.WellFormed) (hroot : root.isAbsolute = false) :
    t.loadBala root.dotted = dottedResult Project.dotted (t.loadBala root) := by
  have hname : Path.isEntryName metadataName = true := by decide
  have hrelative := (Path.isAbsolute_child hname root).trans hroot
  unfold loadBala
  dsimp only
  rw [Path.dotted_child hname, readText_dotted (Path.child_ne_nil hname root) hrelative]
  split
  · rfl
  split
  · rfl
  rw [modulesIn_dotted ht hroot]
  refine dottedResult_bind fun modules _ => ?_
  change Except.ok _ = Except.ok _
  simp [Project.dotted, Path.ofString]

/-- A root is loaded as the same with a dot in front of it, the current directory with a manifest
excepted. -/
theorem loadRoot?_dotted (ht : t.WellFormed) (hroot : root.IsUndotted)
    (hmanifest : root = [] → ¬ t.HasManifest) :
    t.loadRoot? root.dotted = (t.loadRoot? root).map (dottedResult Project.dotted) := by
  have hchild : ∀ {name}, Path.isEntryName name = true →
      t.isFile (root.dotted.child name) = t.isFile (root.child name) ∧
      t.isDirectory (root.dotted.child name) = t.isDirectory (root.child name) := by
    intro name hname
    have hne := Path.child_ne_nil hname root
    have hrelative := (Path.isAbsolute_child hname root).trans hroot.isAbsolute
    rw [Path.dotted_child hname]
    exact ⟨isFile_dotted hne hrelative, isDirectory_dotted hne hrelative⟩
  unfold loadRoot? isBalaRoot
  rw [(hchild (by decide)).1, (hchild (by decide)).1, (hchild (by decide)).2,
    loadBuild_dotted ht hroot hmanifest, loadBala_dotted ht hroot.isAbsolute]
  split_ifs <;> rfl

/-! ### The search -/

theorem loadNearest?_dotted (ht : t.WellFormed) {dirs : List Path}
    (hdirs : ∀ dir ∈ dirs, dir.IsUndotted ∧ dir ≠ []) : t.loadNearest? (dirs.map Path.dotted)
      = (t.loadNearest? dirs).map (dottedResult Project.dotted) := by
  induction dirs with
  | nil => rfl
  | cons dir dirs ih =>
    obtain ⟨⟨hdir, hne⟩, hrest⟩ := List.forall_mem_cons.1 hdirs
    rw [List.map_cons, loadNearest?, loadNearest?,
      loadRoot?_dotted ht hdir (fun hnil => absurd hnil hne)]
    rcases t.loadRoot? dir with _ | (e | project)
    · exact ih hrest
    · cases e with
      | invalidMetadata => exact ih hrest
      | projectNotFound => rfl
      | io => rfl
      | invalidManifest => rfl
      | noCompiledPackage => rfl
    · rfl

theorem loadNearest?_append (dirs dirs' : List Path) :
    t.loadNearest? (dirs ++ dirs') = (t.loadNearest? dirs).or (t.loadNearest? dirs') := by
  induction dirs with
  | nil => rfl
  | cons dir dirs ih =>
    rw [List.cons_append, loadNearest?, loadNearest?]
    split
    · exact ih
    · exact ih
    · rfl

theorem loadNearest?_eq_none {dirs : List Path} :
    t.loadNearest? dirs = none ↔ ∀ dir ∈ dirs, t.PassesOver dir := by
  have hends := t.searchEnds_loadNearest? dirs
  constructor
  · intro h
    rwa [h] at hends
  · intro h
    cases hresult : t.loadNearest? dirs with
    | none => rfl
    | some result =>
      rw [hresult] at hends
      obtain ⟨between, root, beyond, rfl, -, hroot, -⟩ := hends
      exact absurd (h root (by simp)) hroot

/-- At the end of a search stands the current directory: as the empty path, or as a dot and then as the
empty path. -/
theorem loadNearest?_current (ht : t.WellFormed) (hmanifest : ¬ t.HasManifest) :
    t.loadNearest? [['.'], []] = (t.loadNearest? [[]]).map (dottedResult Project.dotted) := by
  have hdot : t.loadRoot? ['.'] = (t.loadRoot? []).map (dottedResult Project.dotted) :=
    @loadRoot?_dotted t [] ht nofun fun _ => hmanifest
  simp only [loadNearest?, hdot]
  rcases t.loadRoot? [] with _ | (e | project)
  · rfl
  · cases e <;> rfl
  · rfl

theorem HasManifest.isFile (h : t.HasManifest) : t.isFile (Path.child [] manifestName) = true := by
  obtain ⟨content, manifest, hcontent, -⟩ := h
  unfold readText at hcontent
  unfold FileTree.isFile
  rcases hfind : t.find (Path.child [] manifestName) with e | ⟨place, _ | file⟩
  · rw [hfind] at hcontent
    cases hcontent
  · rw [hfind] at hcontent
    cases hcontent
  · rfl

/-- With a manifest the current directory cannot be loaded as the empty path, which cannot be listed. -/
theorem HasManifest.loadBuild_nil (h : t.HasManifest) :
    t.loadBuild [] = .error (.io [] .notFound) := by
  obtain ⟨content, manifest, hcontent, hmanifest⟩ := h
  have hdocuments : t.documentsIn [] = .error (.io [] .notFound) := rfl
  unfold loadBuild
  simp only [hcontent, hmanifest, hdocuments]
  rfl

/-- A search stops at a directory with a manifest, whatever comes of that. -/
theorem loadNearest?_of_manifest {dir : Path} (h : t.isFile (dir.child manifestName) = true)
    (dirs : List Path) : t.loadNearest? (dir :: dirs) = some (t.loadBuild dir) := by
  have hroot : t.loadRoot? dir = some (t.loadBuild dir) := by rw [loadRoot?, if_pos h]
  rw [loadNearest?, hroot]
  split
  · rename_i hnone
    cases hnone
  · rename_i path cause hmetadata
    exact absurd rfl ((about_of_loadBuild (Option.some.inj hmetadata)).2 path cause)
  · rename_i result _ hresult
    exact hresult.symm

/-- The search for the root around a file ends at the empty path: it passes over all directories above
the file but the current one, in which there is a manifest. -/
structure EndsAtEmptyPath (t : FileTree) (p : Path) : Prop where
  notDirectory : t.isDirectory p = false
  passed : ∀ dir ∈ p.properAncestors, dir ≠ [] → t.PassesOver dir
  manifest : t.HasManifest

theorem load_of_not_directory {p : Path} (hdirectory : t.isDirectory p = false) {dirs : List Path}
    (hdirs : p.properAncestors = dirs) (hne : dirs ≠ []) : t.load p =
      match t.loadNearest? dirs with
      | some result => result
      | none =>
        if p.extension? = some "bal".toList then t.loadFile p else .error (.projectNotFound p) := by
  have hparent : (p.parent?.getD (Path.ofString ".")).ancestors = dirs := by
    cases hparent : p.parent? with
    | none => exact absurd (hdirs ▸ List.head?_eq_none_iff.1 hparent) hne
    | some parent => rw [← hdirs, Path.properAncestors_eq hparent, Option.getD_some]
  subst hparent
  unfold load
  rw [hdirectory]
  exact if_neg Bool.false_ne_true

theorem loadFile_dotted {p : Path} (hne : p ≠ []) (hp : p.IsUndotted) :
    t.loadFile p.dotted = dottedResult Project.dotted (t.loadFile p) := by
  unfold loadFile
  rw [readText_dotted hne hp.isAbsolute]
  cases t.readText p with
  | error e => rfl
  | ok content =>
    change Except.ok _ = Except.ok _
    simp [Project.dotted, Module.dotted, Document.dotted, Path.ofString, Path.fileName,
      Path.fileName?_dotted hp]

theorem load_dotted_of_directory (ht : t.WellFormed) {p : Path} (hne : p ≠ []) (hp : p.IsUndotted)
    (hdirectory : t.isDirectory p = true) :
    t.load p.dotted = dottedResult Project.dotted (t.load p) := by
  unfold load
  rw [isDirectory_dotted hne hp.isAbsolute, hdirectory, if_pos rfl, if_pos rfl,
    loadRoot?_dotted ht hp (fun hnil => absurd hnil hne)]
  cases t.loadRoot? p <;> rfl

/-- The search around a dotted path is the one around the path, up to the current directory. -/
theorem exists_above (ht : t.WellFormed) {p : Path} (hne : p ≠ []) (hp : p.IsUndotted) :
    ∃ above : List Path, (∀ dir ∈ above, dir ≠ []) ∧ p.properAncestors = above ++ [[]] ∧
      p.dotted.properAncestors ≠ [] ∧ t.loadNearest? p.dotted.properAncestors
        = ((t.loadNearest? above).map (dottedResult Project.dotted)).or
            (t.loadNearest? [['.'], []]) := by
  obtain ⟨above, habove, hancestors, hancestors'⟩ := Path.properAncestors_dotted hne hp
  have hundotted : ∀ dir ∈ above, dir.IsUndotted ∧ dir ≠ [] := by
    intro dir hdir
    have hmem : dir ∈ p.properAncestors := by
      rw [hancestors]
      exact List.mem_append_left _ hdir
    exact ⟨hp.of_mem_ancestors (List.mem_cons_of_mem _ hmem), habove dir hdir⟩
  refine ⟨above, habove, hancestors, by rw [hancestors']; simp, ?_⟩
  rw [hancestors', loadNearest?_append, loadNearest?_dotted ht hundotted]

/-- A file is loaded as the same with a dot in front of its path, unless the search for the root around
it ends at the empty path. -/
theorem load_dotted_of_not_directory (ht : t.WellFormed) {p : Path} (hne : p ≠ [])
    (hp : p.IsUndotted) (hdirectory : t.isDirectory p = false) (hends : ¬ t.EndsAtEmptyPath p) :
    t.load p.dotted = dottedResult Project.dotted (t.load p) := by
  obtain ⟨above, -, hancestors, hne', hnearest⟩ := exists_above ht hne hp
  rw [load_of_not_directory hdirectory hancestors (by simp), loadNearest?_append,
    load_of_not_directory ((isDirectory_dotted hne hp.isAbsolute).trans hdirectory) rfl hne', hnearest]
  cases hresult : t.loadNearest? above with
  | some result => rfl
  | none =>
    have hmanifest : ¬ t.HasManifest := fun hmanifest => hends
      { notDirectory := hdirectory
        passed := fun dir hdir hdirne => loadNearest?_eq_none.1 hresult dir (by
          rw [hancestors, List.mem_append, List.mem_singleton] at hdir
          exact hdir.resolve_right hdirne)
        manifest := hmanifest }
    rw [Option.map_none, Option.none_or, Option.none_or, loadNearest?_current ht hmanifest]
    cases t.loadNearest? [[]] with
    | some result => rfl
    | none =>
      have hextension : p.dotted.extension? = p.extension? := by
        rw [Path.extension?, Path.extension?, Path.fileName?_dotted hp]
      dsimp only [Option.map_none]
      rw [hextension, loadFile_dotted hne hp]
      split_ifs <;> rfl

/-- Where the search ends at the empty path, a file is not loaded. With a dot in front of its path the
search ends at the dot, and the project there is loaded. -/
theorem EndsAtEmptyPath.load_eq (ht : t.WellFormed) {p : Path} (hne : p ≠ []) (hp : p.IsUndotted)
    (hends : t.EndsAtEmptyPath p) :
    t.load p = .error (.io [] .notFound) ∧ t.load p.dotted = t.loadBuild ['.'] := by
  obtain ⟨above, habove, hancestors, hne', hnearest⟩ := exists_above ht hne hp
  have hnone : t.loadNearest? above = none := loadNearest?_eq_none.2 fun dir hdir =>
    hends.passed dir (by rw [hancestors]; exact List.mem_append_left _ hdir) (habove dir hdir)
  have hfile := hends.manifest.isFile
  have hfile' : t.isFile (Path.child ['.'] manifestName) = true :=
    (isFile_dotted (Path.child_ne_nil (by decide) []) rfl).trans hfile
  rw [load_of_not_directory hends.notDirectory hancestors (by simp), loadNearest?_append,
    load_of_not_directory ((isDirectory_dotted hne hp.isAbsolute).trans hends.notDirectory) rfl hne',
    hnearest, hnone, Option.map_none, Option.none_or, Option.none_or,
    loadNearest?_of_manifest hfile, loadNearest?_of_manifest hfile', hends.manifest.loadBuild_nil]
  exact ⟨rfl, rfl⟩

/-- A relative path that does not begin with a dot is loaded as the same with `./` before it and
without: as a project of the same kind with the same package, modules and documents, whose paths have
the dot, or not for the same reason. That is so unless the search for a root ends at the empty path,
which is loaded with `./` before the path and cannot be read without. -/
theorem load_dotted (ht : t.WellFormed) {p : Path} (hne : p ≠ []) (hp : p.IsUndotted) :
    (¬ t.EndsAtEmptyPath p →
      t.load (Path.ofString "./" ++ p) = dottedResult Project.dotted (t.load p)) ∧
    (t.EndsAtEmptyPath p → t.load p = .error (.io [] .notFound) ∧
      t.load (Path.ofString "./" ++ p) = t.loadBuild (Path.ofString ".")) := by
  have hdotted : Path.ofString "./" ++ p = p.dotted := (Path.dotted_of_ne_nil hne).symm
  rw [hdotted]
  refine ⟨fun hends => ?_, fun hends => hends.load_eq ht hne hp⟩
  cases hdirectory : t.isDirectory p with
  | true => exact load_dotted_of_directory ht hne hp hdirectory
  | false => exact load_dotted_of_not_directory ht hne hp hdirectory hends

/-- A path through a module past metadata of another kind. -/
theorem load_dotted_past_foreign_metadata :
    let p := Path.ofString "work/modules/db/new.bal"
    foreignMetadata.WellFormed ∧ p ≠ [] ∧ p.IsUndotted ∧ ¬ foreignMetadata.EndsAtEmptyPath p ∧
      (foreignMetadata.load p).map Project.sourceRoot = .ok "work" ∧
      foreignMetadata.load (Path.ofString "./work/modules/db/new.bal")
        = dottedResult Project.dotted (foreignMetadata.load p) := by
  intro p
  have hne : p ≠ [] := by decide
  have hp : p.IsUndotted := by
    rintro c ⟨⟩
    decide
  have hends : ¬ foreignMetadata.EndsAtEmptyPath p := by
    intro h
    obtain ⟨content, manifest, hcontent, -⟩ := h.manifest
    have hnone : foreignMetadata.readText (Path.child [] manifestName) = .error .notFound := by
      decide +kernel
    rw [hnone] at hcontent
    cases hcontent
  exact ⟨wellFormed_foreignMetadata, hne, hp, hends, by decide +kernel,
    (load_dotted wellFormed_foreignMetadata hne hp).1 hends⟩

/-- In a directory with a manifest the project is loaded from the name of a file with a dot before it,
and not from the name alone. -/
theorem bare_name_misses_project :
    let t := (empty.writeFile ["/", "Ballerina.toml"] (.text "")).writeFile ["/", "main.bal"] (.text "")
    t.WellFormed ∧ t.load (Path.ofString "main.bal") = .error (.io [] .notFound) ∧
      (t.load (Path.ofString "./main.bal")).map (fun project => (project.kind, project.sourceRoot))
        = .ok (.build, ".") := by
  intro t
  have hmanifest := wellFormed_empty.writeFile ["/"] ["Ballerina.toml"] (by decide) (by decide)
    (by decide) (.text "")
  exact ⟨hmanifest.writeFile ["/"] ["main.bal"] (by decide) (by decide) (by decide) (.text ""),
    by decide +kernel, by decide +kernel⟩

end FileTree

end ConnectorCatalog
