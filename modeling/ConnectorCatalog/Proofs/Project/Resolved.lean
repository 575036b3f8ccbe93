import ConnectorCatalog.Proofs.Project.Root
import ConnectorCatalog.Proofs.Resolve

/-!
# Loading what is found

The search for a compiled package asks for metadata only, and loading it for modules too. So what is
found can be loaded, or fails for its own files, if it has modules; if it has none, and no manifest,
then it is found but is no project (`load_balaPath`).
-/

namespace ConnectorCatalog.FileTree

variable {t : FileTree}

/-- What is found for some coordinates is a directory with metadata. -/
theorem hasMetadata_of_balaPath (ht : t.WellFormed) {repositories : List Path} {p : PackageName}
    {path : Path} (h : t.balaPath repositories p = .ok path) :
    t.hasMetadata path = true ∧ t.isDirectory path = true := by
  unfold balaPath resolve? at h
  split at h
  · rename_i found hfound
    cases h
    split_ifs at hfound with hplain
    obtain ⟨_, repository, _, rfl, hfound, -⟩ := List.findSome?_eq_some_iff.1 hfound
    obtain ⟨version, platform, hholds, rfl⟩ := resolveIn?_eq_some ht hplain hfound
    obtain ⟨place, hfind⟩ :=
      find_of_hasMetadata (Path.child_ne_nil hholds.entryPlatform _) hholds.metadata
    exact ⟨hholds.metadata, isDirectory_eq_true.2 ⟨place, hfind⟩⟩
  · cases h

/-- What is found for some coordinates is loaded as the project there, or fails for one of its own
files, if it has a manifest or modules. With metadata only it is found as well, but is no project. -/
theorem load_balaPath (ht : t.WellFormed) (hd : t.Distinct) {repositories : List Path}
    {p : PackageName} {path : Path} (h : t.balaPath repositories p = .ok path) :
    (t.isFile (path.child manifestName) = true ∨ t.isDirectory (path.child modulesName) = true →
      (∃ project, t.load path = .ok project ∧ (t.IsBuild path project ∨ t.IsBala path project)) ∨
        ∃ e, t.load path = .error e ∧ e.About path) ∧
    (t.isFile (path.child manifestName) = false → t.isDirectory (path.child modulesName) = false →
      t.load path = .error (.projectNotFound path)) := by
  obtain ⟨hmetadata, hdirectory⟩ := hasMetadata_of_balaPath ht h
  have hload : t.load path = (t.loadRoot? path).getD (.error (.projectNotFound path)) := by
    rw [load, if_pos hdirectory]
  unfold hasMetadata at hmetadata
  refine ⟨fun hpresent => ?_, fun hmanifest hmodules => ?_⟩
  · have hsome : t.loadRoot? path ≠ none := by
      unfold loadRoot? isBalaRoot
      rcases hpresent with hmanifest | hmodules
      · rw [if_pos hmanifest]
        exact nofun
      · rw [hmetadata, hmodules, Bool.true_and, if_pos rfl]
        split <;> exact nofun
    obtain ⟨result, hresult⟩ := Option.ne_none_iff_exists'.1 hsome
    rw [hload, hresult]
    rcases result with e | project
    · exact .inr ⟨e, rfl, about_of_loadRoot? hresult⟩
    · exact .inl ⟨project, rfl, (of_loadRoot?_eq_ok ht hd hresult).2⟩
  · have hnone : t.loadRoot? path = none := by
      simp [loadRoot?, isBalaRoot, hmanifest, hmodules]
    rw [hload, hnone]
    rfl

/-- A repository with the metadata of a package and nothing else of it. -/
def metadataOnly : FileTree :=
  empty.writeFile ["/", "repo", "wso2", "http", "1.0.0", "any", "package.json"]
    (.text "\x7b\"organization\": \"wso2\", \"name\": \"http\", \"version\": \"1.0.0\"\x7d")

theorem wellFormed_metadataOnly : metadataOnly.WellFormed :=
  wellFormed_empty.writeFile ["/"] ["repo", "wso2", "http", "1.0.0", "any", "package.json"]
    (by decide) (by decide) (by decide) _

/-- With a directory of modules beside its metadata a package is found and loaded. -/
theorem load_balaPath_with_modules :
    let t := metadataOnly.makeDirectories ["/", "repo", "wso2", "http", "1.0.0", "any", "modules"]
    let p : PackageName := ⟨"wso2", "http", "1.0.0"⟩
    let path := Path.ofString "repo/wso2/http/1.0.0/any"
    t.WellFormed ∧ t.Distinct ∧ t.balaPath [Path.ofString "repo"] p = .ok path ∧
      ∃ project, t.load path = .ok project ∧ t.IsBala path project := by
  intro t p path
  have hwellFormed : t.WellFormed := wellFormed_metadataOnly.makeDirectories ["/"]
    ["repo", "wso2", "http", "1.0.0", "any", "modules"] (by decide) (by decide)
  have hdistinct : t.Distinct := (distinct_empty.writeFile _ _).makeDirectories _
  have hfound : t.balaPath [Path.ofString "repo"] p = .ok path := by decide +kernel
  have hkind : (t.load path).map Project.kind = .ok .bala := by decide +kernel
  have hmodules : t.isDirectory (path.child modulesName) = true := by decide +kernel
  obtain ⟨project, hproject, hbuild | hbala⟩ | ⟨e, he, -⟩ :=
    (load_balaPath hwellFormed hdistinct hfound).1 (.inr hmodules)
  · rw [hproject] at hkind
    have hkind : project.kind = .bala := Except.ok.inj hkind
    rw [hbuild.kind] at hkind
    cases hkind
  · exact ⟨hwellFormed, hdistinct, hfound, project, hproject, hbala⟩
  · rw [he] at hkind
    cases hkind

/-- A package of which there are only the metadata is found, and then there is no project. -/
theorem balaPath_metadata_only :
    let path := Path.ofString "repo/wso2/http/1.0.0/any"
    metadataOnly.WellFormed ∧ metadataOnly.Distinct ∧
      metadataOnly.balaPath [Path.ofString "repo"] ⟨"wso2", "http", "1.0.0"⟩ = .ok path ∧
      metadataOnly.load path = .error (.projectNotFound path) :=
  ⟨wellFormed_metadataOnly, distinct_empty.writeFile _ _, by decide +kernel, by decide +kernel⟩

end ConnectorCatalog.FileTree
