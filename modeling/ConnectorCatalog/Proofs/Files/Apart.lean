import ConnectorCatalog.Project.Load
import ConnectorCatalog.Proofs.Basic
import ConnectorCatalog.Proofs.Files.WellFormed

/-!
# What lies apart from a project

A file that loading a project does not look for by name, and that lies neither on the way to where the
project is looked for nor among its modules, makes no difference: the project that is loaded is the
same without it (`load_remove`).
-/

namespace ConnectorCatalog

/-- Loading a project neither looks for something with this name nor reads a file that has it. -/
def isForeignName (name : String) : Bool :=
  name != manifestName && name != metadataName && name != modulesName && !isSourceName name

namespace FileTree

/-- The way of a path passes no place at `q` or below it. -/
def Avoids (t : FileTree) (p : Path) (q : List String) : Prop := ∀ place ∈ t.way p, ¬ q <+: place

/-- What stands at `q` is apart from the project at or around a path: neither the path nor the current
directory leads to it or below it, and if it is a directory then not one among modules. -/
structure Apart (t : FileTree) (p : Path) (q : List String) : Prop where
  current : ¬ q <+: t.current
  way : t.Avoids p q
  noModule : t.node? q = some .directory → q.dropLast.getLast? ≠ some modulesName

variable {t : FileTree} {q : List String}

theorem node?_remove {place : List String} (h : ¬ q <+: place) :
    (t.remove q).node? place = t.node? place := by
  have hplace : (!q.isPrefixOf place) = true := by
    rw [Bool.not_eq_true', Bool.eq_false_iff, ne_eq, List.isPrefixOf_iff_prefix]
    exact h
  unfold node? remove
  dsimp only
  rw [lookup_filter (P := fun place => !q.isPrefixOf place) hplace]

theorem followAll_remove {place : List String} {cs : List (List Char)}
    (h : ∀ r ∈ t.wayFrom place cs, ¬ q <+: r) :
    (t.remove q).followAll place cs = t.followAll place cs := by
  -- a component is followed from the place before it, which is on the way
  induction cs generalizing place with
  | nil => rfl
  | cons c cs ih =>
    have hfollow : (t.remove q).follow place c = t.follow place c := by
      unfold follow
      rw [node?_remove (h place (mem_wayFrom_self ..))]
    simp only [followAll, bind, hfollow]
    cases hc : t.follow place c with
    | error e => rfl
    | ok next =>
      simp only [wayFrom, hc] at h
      exact ih fun r hr => h r (List.mem_cons_of_mem _ hr)

/-- A path that avoids what is removed leads to the same without it. -/
theorem find_remove {p : Path} (h : t.Avoids p q) : (t.remove q).find p = t.find p := by
  have hplace : (t.remove q).followAll ((t.remove q).start p) (cutAll (· == '/') p)
      = t.followAll (t.start p) (cutAll (· == '/') p) := followAll_remove h
  unfold find
  split_ifs
  · rfl
  · rfl
  · rw [hplace]
    cases hfollow : t.followAll (t.start p) (cutAll (· == '/') p) with
    | error e => rfl
    | ok place =>
      have hnode := node?_remove (t := t) (h place (mem_wayFrom_of_followAll hfollow))
      simp only [bind, Except.bind, hnode]

theorem isFile_remove {p : Path} (h : t.Avoids p q) : (t.remove q).isFile p = t.isFile p := by
  rw [isFile, isFile, find_remove h]

theorem isDirectory_remove {p : Path} (h : t.Avoids p q) :
    (t.remove q).isDirectory p = t.isDirectory p := by
  rw [isDirectory, isDirectory, find_remove h]

theorem readText_remove {p : Path} (h : t.Avoids p q) : (t.remove q).readText p = t.readText p := by
  rw [readText, readText, find_remove h]

/-- A name below a directory avoids what the directory avoids, if it is not that itself. -/
theorem avoids_child {dir : Path} {name : String} (hname : Path.isEntryName name = true)
    (h : t.Avoids dir q) (hne : ∀ parent, t.place dir = .ok parent → q ≠ parent ++ [name]) :
    t.Avoids (dir.child name) q := by
  intro place hplace hqplace
  rcases mem_way_child hname hplace with hplace | ⟨parent, hparent, -, rfl⟩
  · exact h place hplace hqplace
  · rcases List.prefix_concat_iff.1 hqplace with heq | hqplace
    · exact hne parent hparent heq
    · exact h parent (mem_wayFrom_of_followAll hparent) hqplace

theorem avoids_child_of_ne {dir : Path} {name : String} (hname : Path.isEntryName name = true)
    (h : t.Avoids dir q) (hne : q.getLast? ≠ some name) : t.Avoids (dir.child name) q := by
  refine avoids_child hname h fun parent _ heq => hne ?_
  rw [heq, List.getLast?_concat]

theorem mem_namesBelow_remove {place : List String} {name : String}
    (h : name ∈ (t.remove q).namesBelow place) :
    name ∈ t.namesBelow place ∧ ¬ q <+: place ++ [name] := by
  obtain ⟨node, hmem⟩ := mem_namesBelow.1 h
  obtain ⟨hmem, hq⟩ := List.mem_filter.1 hmem
  refine ⟨mem_namesBelow.2 ⟨node, hmem⟩, fun hqplace => ?_⟩
  rw [List.isPrefixOf_iff_prefix.2 hqplace] at hq
  cases hq

/-- Of the names in a directory those with a property are the same, if what is removed lies elsewhere
or its name lacks the property. -/
theorem filter_namesBelow_remove {place : List String} (hplace : ¬ q <+: place) {P : String → Bool}
    (hq : ∀ name ∈ t.namesBelow place, q = place ++ [name] → P name = false) :
    ((t.remove q).namesBelow place).filter P = (t.namesBelow place).filter P := by
  have hbelow : ∀ name node, (place ++ [name], node) ∈ t.entries → q = place ++ [name] →
      P name = false := fun name node hmem => hq name (mem_namesBelow.2 ⟨node, hmem⟩)
  unfold namesBelow remove
  rw [List.filter_filterMap, List.filter_filterMap, List.filterMap_filter]
  refine List.filterMap_congr fun e hmem => ?_
  split_ifs with he
  · rfl
  · rw [Bool.not_eq_true', Bool.not_eq_false, List.isPrefixOf_iff_prefix] at he
    obtain ⟨names, node⟩ := e
    dsimp only at he ⊢
    split
    · rename_i name hlast
      obtain ⟨front, rfl⟩ := List.getLast?_eq_some_iff.1 hlast
      rw [List.dropLast_concat]
      split_ifs with hfront
      · subst hfront
        have heq := (List.prefix_concat_iff.1 he).resolve_right hplace
        rw [Option.filter_some, hbelow name node hmem heq]
        rfl
      · rfl
    · rfl

/-- What a property picks from the names in a directory is the same, if it is lost on what is removed
and is decided without it for all other names. -/
theorem filter_list_remove (ht : t.WellFormed) {dir : Path} (h : t.Avoids dir q)
    {P Q : String → Bool}
    (hP : ∀ name, Path.isEntryName name = true → t.Avoids (dir.child name) q → Q name = P name)
    (hq : ∀ parent name, t.find dir = .ok (parent, .directory) → Path.isEntryName name = true →
      q = parent ++ [name] → P name = false) :
    ((t.remove q).list dir).map (List.filter Q) = (t.list dir).map (List.filter P) := by
  rw [list, list, find_remove h]
  cases hfind : t.find dir with
  | error e => rfl
  | ok found =>
    obtain ⟨place, _ | content⟩ := found
    · have hplace := (find_eq_ok.1 hfind).2.2.1
      have hsame : ((t.remove q).namesBelow place).filter Q
          = ((t.remove q).namesBelow place).filter P := by
        refine List.filter_congr fun name hname => ?_
        obtain ⟨hname, hne⟩ := mem_namesBelow_remove hname
        refine hP name (ht.isEntryName_of_mem hname)
          (avoids_child (ht.isEntryName_of_mem hname) h fun parent hparent heq => ?_)
        rw [hplace] at hparent
        cases hparent
        exact hne (heq ▸ List.prefix_refl _)
      change Except.ok _ = Except.ok _
      rw [hsame, filter_namesBelow_remove (h place (mem_wayFrom_of_followAll hplace))
        fun name hname heq =>
          hq place name hfind (ht.isEntryName_of_mem hname) heq]
    · rfl

section
variable {home : List String} {name : String} (hname : isForeignName name = true)
  (ht : t.WellFormed) {dir : Path} (h : t.Avoids dir (home ++ [name]))

include hname in
theorem not_isSourceName_of_isForeignName : isSourceName name = false := by
  simp only [isForeignName, Bool.and_eq_true, Bool.not_eq_true'] at hname
  exact hname.2

/-- Of the names that a directory lists, those of source files are read. -/
theorem sourceNames_eq (t : FileTree) (dir : Path) : t.sourceNames dir =
    match (t.list dir).map (List.filter fun n => t.isFile (dir.child n) && isSourceName n) with
    | .error cause => .error (.io dir cause)
    | .ok names => .ok (sortNames names) := by
  unfold sourceNames
  cases t.list dir <;> rfl

theorem directoryNames_eq (t : FileTree) (dir : Path) : t.directoryNames dir =
    if t.isDirectory dir then
      match (t.list dir).map (List.filter fun n => t.isDirectory (dir.child n)) with
      | .error cause => .error (.io dir cause)
      | .ok names => .ok (sortNames names)
    else .ok [] := by
  unfold directoryNames
  cases t.list dir <;> rfl

include hname ht h in
theorem sourceNames_remove : (t.remove (home ++ [name])).sourceNames dir = t.sourceNames dir := by
  have hlist := filter_list_remove ht h
    (P := fun n => t.isFile (dir.child n) && isSourceName n)
    (Q := fun n => (t.remove (home ++ [name])).isFile (dir.child n) && isSourceName n)
    (fun n _ havoids => by rw [isFile_remove havoids]) (fun parent n _ _ heq => by
      obtain ⟨-, hlast⟩ := List.append_inj' heq rfl
      rw [← List.singleton_inj.1 hlast, not_isSourceName_of_isForeignName hname, Bool.and_false])
  rw [sourceNames_eq, sourceNames_eq, hlist]

/-- The names of source files may stand in a directory. -/
theorem of_mem_sourceNames {t : FileTree} (ht : t.WellFormed) {dir : Path} {names : List String}
    (h : t.sourceNames dir = .ok names) {n : String} (hn : n ∈ names) :
    Path.isEntryName n = true ∧ isSourceName n = true := by
  unfold sourceNames at h
  cases hlist : t.list dir with
  | error e => rw [hlist] at h; cases h
  | ok all =>
    rw [hlist] at h
    cases h
    have hmem := List.mem_filter.1 ((List.mergeSort_perm _ _).subset hn)
    rw [Bool.and_eq_true] at hmem
    exact ⟨ht.isEntryName_of_list hlist hmem.1, hmem.2.2⟩

include hname ht h in
theorem documentsIn_remove : (t.remove (home ++ [name])).documentsIn dir = t.documentsIn dir := by
  have hread : ∀ names : List String,
      (∀ n ∈ names, Path.isEntryName n = true ∧ isSourceName n = true) →
      (t.remove (home ++ [name])).readDocuments dir names = t.readDocuments dir names := by
    intro names hnames
    induction names with
    | nil => rfl
    | cons n names ih =>
      obtain ⟨hentry, hsource⟩ := hnames n (List.mem_cons_self ..)
      have hne : (home ++ [name]).getLast? ≠ some n := by
        rw [List.getLast?_concat]
        rintro ⟨⟩
        rw [not_isSourceName_of_isForeignName hname] at hsource
        cases hsource
      rw [readDocuments, readDocuments, readText_remove (avoids_child_of_ne hentry h hne),
        ih fun m hm => hnames m (List.mem_cons_of_mem _ hm)]
  unfold documentsIn
  rw [sourceNames_remove hname ht h]
  cases hnames : t.sourceNames dir with
  | error e => rfl
  | ok names => exact hread names fun n hn => of_mem_sourceNames ht hnames hn

include hname h in
/-- What loading a project looks for by name has another name. -/
theorem avoids_sought (sought : String) (hsought : isForeignName sought = false)
    (hentry : Path.isEntryName sought = true) : t.Avoids (dir.child sought) (home ++ [name]) := by
  refine avoids_child_of_ne hentry h ?_
  rw [List.getLast?_concat]
  rintro ⟨⟩
  rw [hname] at hsought
  cases hsought

variable (hmodule : t.node? (home ++ [name]) = some .directory → home.getLast? ≠ some modulesName)

/-- The directory of modules below a root. -/
theorem place_modules {root : Path} {place : List String}
    (hplace : t.place (root.child modulesName) = .ok place) : place.getLast? = some modulesName := by
  obtain ⟨parent, -, -, rfl⟩ := (place_child_eq_ok (by decide)).1 hplace
  exact List.getLast?_concat

include hname ht h hmodule in
theorem directoryNames_remove : (t.remove (home ++ [name])).directoryNames (dir.child modulesName)
    = t.directoryNames (dir.child modulesName) := by
  have havoids := avoids_sought hname h modulesName (by decide) (by decide)
  have hlist := filter_list_remove ht havoids
    (P := fun n => t.isDirectory ((dir.child modulesName).child n))
    (Q := fun n => (t.remove (home ++ [name])).isDirectory ((dir.child modulesName).child n))
    (fun n _ havoids => isDirectory_remove havoids) (fun parent n hfind hentry heq => by
      rw [← Bool.not_eq_true, isDirectory_eq_true]
      rintro ⟨place, hchild⟩
      obtain ⟨-, parent', hfind', rfl, hnode⟩ :=
        (find_child_eq_ok hentry (Path.child_ne_nil (by decide) dir)).1 hchild
      rw [hfind] at hfind'
      cases hfind'
      rw [← heq] at hnode
      obtain ⟨rfl, -⟩ := List.append_inj' heq rfl
      exact hmodule hnode (place_modules (find_eq_ok.1 hfind).2.2.1))
  rw [directoryNames_eq, directoryNames_eq, isDirectory_remove havoids, hlist]

/-- The names of directories may stand in a directory, and are names of directories there. -/
theorem of_mem_directoryNames {t : FileTree} (ht : t.WellFormed) {dir : Path} {names : List String}
    (h : t.directoryNames dir = .ok names) {n : String} (hn : n ∈ names) :
    Path.isEntryName n = true ∧ t.isDirectory (dir.child n) = true := by
  unfold directoryNames at h
  split at h
  · cases hlist : t.list dir with
    | error e => rw [hlist] at h; cases h
    | ok all =>
      rw [hlist] at h
      cases h
      have hmem := List.mem_filter.1 ((List.mergeSort_perm _ _).subset hn)
      exact ⟨ht.isEntryName_of_list hlist hmem.1, hmem.2⟩
  · cases h
    cases hn

include hname ht h hmodule in
theorem modulesIn_remove (moduleName : String → String) :
    (t.remove (home ++ [name])).modulesIn dir moduleName = t.modulesIn dir moduleName := by
  have havoids := avoids_sought hname h modulesName (by decide) (by decide)
  have hread : ∀ names : List String, (∀ n ∈ names, Path.isEntryName n = true ∧
        t.isDirectory ((dir.child modulesName).child n) = true) →
      (t.remove (home ++ [name])).readModules (dir.child modulesName) moduleName names
        = t.readModules (dir.child modulesName) moduleName names := by
    intro names hnames
    induction names with
    | nil => rfl
    | cons n names ih =>
      obtain ⟨hentry, hdirectory⟩ := hnames n (List.mem_cons_self ..)
      have hn : t.Avoids ((dir.child modulesName).child n) (home ++ [name]) := by
        refine avoids_child hentry havoids fun parent hparent heq => ?_
        obtain ⟨rfl, -⟩ := List.append_inj' heq rfl
        obtain ⟨place, hfind⟩ := isDirectory_eq_true.1 hdirectory
        obtain ⟨-, parent', hfind', rfl, hnode⟩ :=
          (find_child_eq_ok hentry (Path.child_ne_nil (by decide) dir)).1 hfind
        rw [(find_eq_ok.1 hfind').2.2.1] at hparent
        cases hparent
        exact hmodule (heq ▸ hnode) (place_modules (find_eq_ok.1 hfind').2.2.1)
      rw [readModules, readModules, documentsIn_remove hname ht hn,
        ih fun m hm => hnames m (List.mem_cons_of_mem _ hm)]
  unfold modulesIn
  dsimp only
  rw [directoryNames_remove hname ht h hmodule]
  cases hnames : t.directoryNames (dir.child modulesName) with
  | error e => rfl
  | ok names => exact hread names fun n hn => of_mem_directoryNames ht hnames hn

include hname ht h hmodule in
theorem loadRoot?_remove : (t.remove (home ++ [name])).loadRoot? dir = t.loadRoot? dir := by
  have hmanifest := avoids_sought hname h manifestName (by decide) (by decide)
  have hmetadata := avoids_sought hname h metadataName (by decide) (by decide)
  have hmodules := avoids_sought hname h modulesName (by decide) (by decide)
  have hbuild : (t.remove (home ++ [name])).loadBuild dir = t.loadBuild dir := by
    unfold loadBuild
    dsimp only
    rw [readText_remove hmanifest, documentsIn_remove hname ht h]
    simp only [modulesIn_remove hname ht h hmodule]
  have hbala : (t.remove (home ++ [name])).loadBala dir = t.loadBala dir := by
    unfold loadBala
    dsimp only
    rw [readText_remove hmetadata, modulesIn_remove hname ht h hmodule]
  unfold loadRoot? isBalaRoot
  rw [isFile_remove hmanifest, isFile_remove hmetadata, isDirectory_remove hmodules, hbuild, hbala]

end

/-- The project that is loaded is the same without what is apart from it. -/
theorem load_remove (ht : t.WellFormed) {home : List String} {name : String}
    (hname : isForeignName name = true) {p : Path} (h : t.Apart p (home ++ [name])) :
    (t.remove (home ++ [name])).load p = t.load p := by
  have hmodule : t.node? (home ++ [name]) = some .directory → home.getLast? ≠ some modulesName := by
    simpa only [List.dropLast_concat] using h.noModule
  have hnearest : ∀ dirs : List Path, (∀ dir ∈ dirs, t.Avoids dir (home ++ [name])) →
      (t.remove (home ++ [name])).loadNearest? dirs = t.loadNearest? dirs := by
    intro dirs hdirs
    induction dirs with
    | nil => rfl
    | cons dir dirs ih =>
      rw [loadNearest?, loadNearest?,
        loadRoot?_remove hname ht (hdirs dir (List.mem_cons_self ..)) hmodule,
        ih fun d hd => hdirs d (List.mem_cons_of_mem _ hd)]
  have hancestors : ∀ dir ∈ (p.parent?.getD (Path.ofString ".")).ancestors,
      t.Avoids dir (home ++ [name]) := by
    intro dir hdir place hplace
    have hplace := way_of_mem_ancestors hdir hplace
    cases hparent : p.parent? with
    | none =>
      have hdot : t.way (Path.ofString ".") = [t.current, t.current] := by
        simp [way, Path.pieces, Path.ofString, cutAll, wayFrom, start, Path.isAbsolute, follow, node?]
      rw [hparent, Option.getD_none, hdot] at hplace
      obtain rfl : place = t.current := by simpa using hplace
      exact h.current
    | some parent =>
      rw [hparent, Option.getD_some] at hplace
      have hmem : parent ∈ p.ancestors := List.mem_cons_of_mem _ (List.mem_of_mem_head? hparent)
      exact h.way place (way_of_mem_ancestors hmem hplace)
  unfold load loadFile
  dsimp only
  rw [isDirectory_remove h.way, loadRoot?_remove hname ht h.way hmodule, hnearest _ hancestors,
    readText_remove h.way]

/-- The name of a settings file. -/
def settingsName : String := "Settings.toml"

/-- Two trees that are the same but for the settings file in a directory, which either may lack and
which is apart from the project at or around a path. -/
structure SameButSettings (p : Path) (home : List String) (t t' : FileTree) : Prop where
  rest : t.remove (home ++ [settingsName]) = t'.remove (home ++ [settingsName])
  wellFormed : t.WellFormed ∧ t'.WellFormed
  apart : t.Apart p (home ++ [settingsName]) ∧ t'.Apart p (home ++ [settingsName])

/-- Loading a project pays no heed to a settings file apart from it. -/
theorem SameButSettings.load_eq {p : Path} {home : List String} {t t' : FileTree}
    (h : SameButSettings p home t t') : t.load p = t'.load p := by
  have hname : isForeignName settingsName = true := by decide
  rw [← load_remove h.wellFormed.1 hname h.apart.1, h.rest,
    load_remove h.wellFormed.2 hname h.apart.2]

end FileTree

end ConnectorCatalog
