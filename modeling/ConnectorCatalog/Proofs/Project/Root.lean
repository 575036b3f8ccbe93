import ConnectorCatalog.Proofs.Project.Sources
import Mathlib.Data.List.Nodup

/-!
# What a root is loaded as

A root is a directory with a manifest, or with modules and metadata that can be decoded. It is loaded
as the package that these describe, with all its sources (`of_loadRoot?_eq_ok`) and no file twice
(`IsBuild.nodup`, `IsBala.nodup`); what keeps it from being loaded lies in it (`about_of_loadRoot?`).
-/

namespace ConnectorCatalog

/-- The error is about a root: its manifest, its metadata or something in it that cannot be read. -/
inductive ProjectError.About (root : Path) : ProjectError → Prop
  | io {path : Path} {cause : FileError} (h : root.Within path) : About root (.io path cause)
  | manifest {cause : Toml.SyntaxError} :
    About root (.invalidManifest (root.child manifestName) cause)
  | metadata {cause : Json.ReadError} :
    About root (.invalidMetadata (root.child metadataName) cause)

namespace FileTree

variable {t : FileTree} {root p : Path} {project : Project}

/-- What decoding the metadata of a compiled package gives. -/
def decodeMetadata (content : String) : Except Json.ReadError (List (String × String)) :=
  Json.readAll (Json.readTexts "BalaPackageJson" ["organization", "name", "version"]) content.toList

/-- The metadata in a directory can be decoded. -/
def DecodesMetadata (t : FileTree) (dir : Path) : Prop :=
  ∃ content found, t.readText (dir.child metadataName) = .ok content ∧
    decodeMetadata content = .ok found

/-- The directory is a root: it has a manifest, or modules and metadata that can be decoded. -/
def IsRoot (t : FileTree) (dir : Path) : Prop :=
  t.isFile (dir.child manifestName) = true ∨ t.isBalaRoot dir = true ∧ t.DecodesMetadata dir

/-- The package that the manifest in `root` describes, with the source files in `root` as its first
module and then those in each directory of modules. -/
structure IsBuild (t : FileTree) (root : Path) (project : Project) : Prop where
  kind : project.kind = .build
  sourceRoot : project.sourceRoot = String.ofList root
  package : ∃ content manifest, t.readText (root.child manifestName) = .ok content ∧
    Toml.Document.parse content = .ok manifest ∧ project.package = packageOf root manifest
  modules : ∃ documents found,
    project.modules = ⟨project.package.name, documents⟩ ::
      found.map (fun m => ⟨project.package.name ++ "." ++ m.1, m.2⟩) ∧
    t.AreSources root documents ∧ t.AreModules (root.child modulesName) found

/-- The compiled package that the metadata in `root` describe, with the source files in each directory
of modules. -/
structure IsBala (t : FileTree) (root : Path) (project : Project) : Prop where
  kind : project.kind = .bala
  sourceRoot : project.sourceRoot = String.ofList root
  noManifest : t.isFile (root.child manifestName) = false
  package : ∃ content found, t.readText (root.child metadataName) = .ok content ∧
    decodeMetadata content = .ok found ∧
    project.package = ⟨(found.lookup "organization").getD "", (found.lookup "name").getD "",
      (found.lookup "version").getD ""⟩
  modules : ∃ found, project.modules = found.map (fun m => ⟨m.1, m.2⟩) ∧
    t.AreModules (root.child modulesName) found

/-- The source file at a path, as the only document of its only module. -/
structure IsSingleFile (t : FileTree) (p : Path) (project : Project) : Prop where
  kind : project.kind = .singleFile
  sourceRoot : project.sourceRoot = String.ofList p
  modules : ∃ content, t.readText p = .ok content ∧
    project.modules = [⟨".", [⟨p.fileName, String.ofList p, content⟩]⟩]

/-! ### Loading a root -/

theorem isBuild_of_loadBuild (ht : t.WellFormed) (hd : t.Distinct)
    (h : t.loadBuild root = .ok project) : t.IsBuild root project := by
  unfold loadBuild at h
  dsimp only at h
  split at h
  · cases h
  rename_i content hcontent
  split at h
  · cases h
  rename_i manifest hmanifest
  obtain ⟨documents, hdocuments, h⟩ := bind_eq_ok.1 h
  obtain ⟨modules, hmodules, ⟨⟩⟩ := bind_eq_ok.1 h
  obtain ⟨found, rfl, hfound⟩ := exists_modules_of_modulesIn ht hd hmodules
  exact ⟨rfl, rfl, ⟨content, manifest, hcontent, hmanifest, rfl⟩, documents, found, rfl,
    areSources_of_documentsIn ht hd hdocuments, hfound⟩

/-- What keeps a manifest's project from being loaded is not its metadata. -/
theorem about_of_loadBuild {e : ProjectError} (h : t.loadBuild root = .error e) :
    e.About root ∧ ∀ path cause, e ≠ .invalidMetadata path cause := by
  unfold loadBuild at h
  dsimp only at h
  split at h
  · cases h
    exact ⟨.io (root.within_child _), nofun⟩
  split at h
  · cases h
    exact ⟨.manifest, nofun⟩
  obtain h | ⟨_, -, h⟩ := bind_eq_error.1 h
  · obtain ⟨path, cause, rfl, hwithin⟩ := within_of_documentsIn h
    exact ⟨.io hwithin, nofun⟩
  obtain h | ⟨_, -, h⟩ := bind_eq_error.1 h
  · obtain ⟨path, cause, rfl, hwithin⟩ := within_of_modulesIn h
    exact ⟨.io hwithin, nofun⟩
  · cases h

theorem isBala_of_loadBala (ht : t.WellFormed) (hd : t.Distinct)
    (hmanifest : t.isFile (root.child manifestName) = false) (h : t.loadBala root = .ok project) :
    t.IsBala root project := by
  unfold loadBala at h
  dsimp only at h
  split at h
  · cases h
  rename_i content hcontent
  split at h
  · cases h
  rename_i metadata hmetadata
  obtain ⟨modules, hmodules, ⟨⟩⟩ := bind_eq_ok.1 h
  obtain ⟨found, rfl, hfound⟩ := exists_modules_of_modulesIn ht hd hmodules
  exact ⟨rfl, rfl, hmanifest, ⟨content, metadata, hcontent, hmetadata, rfl⟩, found, rfl, hfound⟩

/-- Loading a compiled package blames its metadata only if they cannot be decoded. -/
theorem about_of_loadBala {e : ProjectError} (h : t.loadBala root = .error e) :
    e.About root ∧ ∀ path cause, e = .invalidMetadata path cause →
      ∃ content, t.readText (root.child metadataName) = .ok content ∧
        decodeMetadata content = .error cause := by
  unfold loadBala at h
  dsimp only at h
  split at h
  · cases h
    exact ⟨.io (root.within_child _), nofun⟩
  rename_i content hcontent
  split at h
  · rename_i cause hcause
    cases h
    refine ⟨.metadata, ?_⟩
    rintro _ _ ⟨⟩
    exact ⟨content, hcontent, hcause⟩
  obtain h | ⟨_, -, h⟩ := bind_eq_error.1 h
  · obtain ⟨path, cause, rfl, hwithin⟩ := within_of_modulesIn h
    exact ⟨.io hwithin, nofun⟩
  · cases h

theorem isSingleFile_of_loadFile (h : t.loadFile p = .ok project) : t.IsSingleFile p project := by
  unfold loadFile at h
  split at h
  · cases h
  · rename_i content hcontent
    cases h
    exact ⟨rfl, rfl, content, hcontent, rfl⟩

/-- A directory that loads is a root. -/
theorem of_loadRoot?_eq_ok (ht : t.WellFormed) (hd : t.Distinct)
    (h : t.loadRoot? root = some (.ok project)) :
    t.IsRoot root ∧ (t.IsBuild root project ∨ t.IsBala root project) := by
  unfold loadRoot? at h
  split_ifs at h with hmanifest hbala
  · exact ⟨.inl hmanifest, .inl (isBuild_of_loadBuild ht hd (Option.some.inj h))⟩
  · rw [Bool.not_eq_true] at hmanifest
    have hproject := isBala_of_loadBala ht hd hmanifest (Option.some.inj h)
    obtain ⟨content, found, hcontent, hfound, -⟩ := hproject.package
    exact ⟨.inr ⟨hbala, content, found, hcontent, hfound⟩, .inr hproject⟩

theorem about_of_loadRoot? {e : ProjectError} (h : t.loadRoot? root = some (.error e)) :
    e.About root := by
  unfold loadRoot? at h
  split_ifs at h
  · exact (about_of_loadBuild (Option.some.inj h)).1
  · exact (about_of_loadBala (Option.some.inj h)).1

/-! ### No file twice -/

theorem AreSources.place_eq {dir : Path} {documents : List Document} (h : t.AreSources dir documents)
    {d : Document} (hmem : d ∈ documents) : ∃ parent, t.place dir = .ok parent ∧
      t.place (Path.ofString d.path) = .ok (parent ++ [d.name]) := by
  obtain ⟨hname, -, hfile⟩ := (h.mem d.name).1 (List.mem_map_of_mem hmem)
  obtain ⟨place, content, hfind⟩ := isFile_eq_true.1 hfile
  obtain ⟨parent, hparent, -, rfl⟩ := (place_child_eq_ok hname).1 (find_eq_ok.1 hfind).2.2.1
  refine ⟨parent, hparent, ?_⟩
  rw [(h.read d hmem).1, Path.ofString, String.toList_ofList]
  exact (find_eq_ok.1 hfind).2.2.1

theorem AreModules.place_eq {dir : Path} {modules : List (String × List Document)}
    (h : t.AreModules dir modules) {m : String × List Document} (hm : m ∈ modules) {d : Document}
    (hd : d ∈ m.2) : ∃ parent, t.place dir = .ok parent ∧
      t.place (Path.ofString d.path) = .ok (parent ++ [m.1, d.name]) := by
  obtain ⟨place, hplace, hpath⟩ := (h.sources m hm).place_eq hd
  have hname := ((h.mem m.1).1 (List.mem_map_of_mem hm)).1
  obtain ⟨parent, hparent, -, rfl⟩ := (place_child_eq_ok hname).1 hplace
  exact ⟨parent, hparent, by rw [hpath, List.append_assoc]; rfl⟩

theorem ne_of_ascending {α : Type} {f : α → String} {l : List α}
    (h : (l.map f).Pairwise fun a b => utf8 a < utf8 b) : l.Pairwise fun a b => f a ≠ f b :=
  (List.pairwise_map.1 h).imp fun hlt heq => absurd hlt (by rw [heq]; exact List.lt_irrefl _)

theorem AreSources.nodup {dir : Path} {documents : List Document} (h : t.AreSources dir documents) :
    (documents.map fun d => t.place (Path.ofString d.path)).Nodup := by
  refine List.pairwise_map.2 ((ne_of_ascending h.ascending).imp_of_mem fun ha hb hne heq => hne ?_)
  obtain ⟨parent, -, ha⟩ := h.place_eq ha
  obtain ⟨parent', -, hb⟩ := h.place_eq hb
  rw [ha, hb, Except.ok.injEq] at heq
  exact List.singleton_inj.1 (List.append_inj' heq rfl).2

theorem AreModules.nodup {dir : Path} {modules : List (String × List Document)}
    (h : t.AreModules dir modules) :
    (modules.flatMap fun m => m.2.map fun d => t.place (Path.ofString d.path)).Nodup := by
  refine List.nodup_flatMap.2 ⟨fun m hm => (h.sources m hm).nodup, ?_⟩
  refine (ne_of_ascending h.ascending).imp_of_mem fun {m m'} hm hm' hne place hplace hplace' => hne ?_
  obtain ⟨d, hd, rfl⟩ := List.mem_map.1 hplace
  obtain ⟨d', hd', heq⟩ := List.mem_map.1 hplace'
  obtain ⟨parent, -, hplace⟩ := h.place_eq hm hd
  obtain ⟨parent', -, hplace'⟩ := h.place_eq hm' hd'
  rw [hplace, hplace', Except.ok.injEq] at heq
  exact (List.cons.inj (List.append_inj' heq rfl).2).1.symm

/-- The places of the documents of a project. -/
def placesOf (t : FileTree) (project : Project) : List (Except FileError (List String)) :=
  project.documents.map fun d => t.place (Path.ofString d.2.path)

theorem placesOf_eq (project : Project) : t.placesOf project =
    project.modules.flatMap fun m => m.documents.map fun d => t.place (Path.ofString d.path) := by
  unfold placesOf Project.documents
  rw [List.map_flatMap]
  simp only [List.map_map, Function.comp_def]

theorem IsBuild.nodup (h : t.IsBuild root project) : (t.placesOf project).Nodup := by
  obtain ⟨documents, found, hmodules, hdocuments, hfound⟩ := h.modules
  rw [placesOf_eq, hmodules, List.flatMap_cons, List.flatMap_map]
  refine List.nodup_append'.2 ⟨hdocuments.nodup, hfound.nodup, fun place hplace hplace' => ?_⟩
  obtain ⟨d, hd, rfl⟩ := List.mem_map.1 hplace
  obtain ⟨m, hm, hplace'⟩ := List.mem_flatMap.1 hplace'
  obtain ⟨d', hd', heq⟩ := List.mem_map.1 hplace'
  obtain ⟨parent, hparent, hplace⟩ := hdocuments.place_eq hd
  obtain ⟨place', hmodules, hplace'⟩ := hfound.place_eq hm hd'
  -- one name below the root, or three
  obtain ⟨parent', hparent', -, rfl⟩ := (place_child_eq_ok (by decide)).1 hmodules
  rw [hparent, Except.ok.injEq] at hparent'
  rw [hplace, hplace', hparent', Except.ok.injEq] at heq
  have := congrArg List.length heq
  simp at this

theorem IsBala.nodup (h : t.IsBala root project) : (t.placesOf project).Nodup := by
  obtain ⟨found, hmodules, hfound⟩ := h.modules
  rw [placesOf_eq, hmodules, List.flatMap_map]
  exact hfound.nodup

theorem IsSingleFile.nodup (h : t.IsSingleFile p project) : (t.placesOf project).Nodup := by
  obtain ⟨content, -, hmodules⟩ := h.modules
  rw [placesOf_eq, hmodules]
  exact List.nodup_singleton _

end FileTree

end ConnectorCatalog
