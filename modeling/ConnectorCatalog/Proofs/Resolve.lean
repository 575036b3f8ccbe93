import ConnectorCatalog.Project.Resolve
import ConnectorCatalog.Proofs.Files.WellFormed
import ConnectorCatalog.Proofs.SortedNames
import ConnectorCatalog.Proofs.Version.Order
import ConnectorCatalog.Proofs.Version.Text

/-!
# Where compiled packages are found

The package that is found for some coordinates lies in a repository, four names below it: those of the
coordinates, the version and the platform (`resolveAll_inside`). A version that is left open is the
greatest that is there, and no earlier repository has the package.
-/

namespace ConnectorCatalog

open Std

theorem newest?_eq_none {xs : List (Version × String)} (h : newest? xs = none) : xs = [] := by
  cases xs with
  | nil => rfl
  | cons x xs =>
    unfold newest? at h
    split at h
    · cases h
    · split at h <;> cases h

/-- The newest of some versions is one of them, and no other is newer. -/
theorem newest?_eq_some {xs : List (Version × String)} {x : Version × String}
    (h : newest? xs = some x) : x ∈ xs ∧ ∀ y ∈ xs, (y.1.order x.1).isLE = true := by
  have hself : ∀ v : Version, (v.order v).isLE = true := fun v => by
    have : v.order v = .eq := ReflCmp.compare_self
    rw [this]
    rfl
  induction xs generalizing x with
  | nil => cases h
  | cons y ys ih =>
    unfold newest? at h
    cases hys : newest? ys with
    | none =>
      rw [hys] at h
      cases h
      rw [newest?_eq_none hys]
      exact ⟨List.mem_singleton_self _, by simpa using hself y.1⟩
    | some z =>
      rw [hys] at h
      obtain ⟨hmem, hmax⟩ := ih hys
      dsimp only at h
      split_ifs at h with hgt
      · cases h
        have hlt : (z.1.order y.1).isLE = true := by
          have : z.1.order y.1 = (y.1.order z.1).swap := OrientedCmp.eq_swap
          rw [this, hgt]
          rfl
        refine ⟨List.mem_cons_self .., List.forall_mem_cons.2 ⟨hself y.1, fun w hw => ?_⟩⟩
        exact TransCmp.isLE_trans (hmax w hw) hlt
      · cases h
        refine ⟨List.mem_cons_of_mem _ hmem, List.forall_mem_cons.2 ⟨?_, hmax⟩⟩
        exact Ordering.isLE_iff_ne_gt.2 hgt

/-- The first of some names in order is the smallest. -/
theorem head?_sortNames {names : List String} {name : String}
    (h : (sortNames names).head? = some name) : name ∈ names ∧ ∀ n ∈ names, name ≤ n := by
  have hperm := sortNames_perm names
  have hsorted := pairwise_sortNames names
  generalize sortNames names = sorted at h hperm hsorted
  cases sorted with
  | nil => cases h
  | cons first rest =>
    cases h
    refine ⟨hperm.subset (List.mem_cons_self ..), fun n hn => ?_⟩
    rcases List.mem_cons.1 (hperm.mem_iff.2 hn) with rfl | hn
    · exact String.le_refl _
    · exact (List.pairwise_cons.1 hsorted).1 n hn

namespace FileTree

variable {t : FileTree}

theorem WellFormed.isEntryName_of_mem_listed (ht : t.WellFormed) {dir : Path} {name : String}
    (h : name ∈ t.listed dir) : Path.isEntryName name = true := by
  unfold FileTree.listed at h
  split at h
  · rename_i hlist
    exact ht.isEntryName_of_list hlist h
  · cases h

/-- A directory lists the names that lead to something in it. -/
theorem WellFormed.mem_listed (ht : t.WellFormed) {dir : Path} (hdir : dir ≠ []) {name : String}
    (hname : Path.isEntryName name = true) {place : List String} {node : FileNode}
    (h : t.find (dir.child name) = .ok (place, node)) : name ∈ t.listed dir := by
  obtain ⟨-, parent, hfind, rfl, hnode⟩ := (find_child_eq_ok hname hdir).1 h
  unfold FileTree.listed list
  rw [hfind]
  exact ht.mem_namesBelow_of_node? hname hnode

/-- A directory with the metadata of a package is one. -/
theorem find_of_hasMetadata {dir : Path} (hdir : dir ≠ []) (h : t.hasMetadata dir = true) :
    ∃ place, t.find dir = .ok (place, .directory) := by
  obtain ⟨place, content, hfind⟩ := isFile_eq_true.1 h
  obtain ⟨-, parent, hfind, -, -⟩ := (find_child_eq_ok (by decide) hdir).1 hfind
  exact ⟨parent, hfind⟩

/-- The name is that of the greatest version among the directories in one. -/
def IsNewest (t : FileTree) (dir : Path) (name : String) : Prop :=
  ∃ v, Version.parse? name = some v ∧ t.isDirectory (dir.child name) = true ∧
    ∀ other w, Path.isEntryName other = true → Version.parse? other = some w →
      t.isDirectory (dir.child other) = true → other ≠ name → w.order v = .lt

/-- The name is that of the platform to take among the directories in one: any platform if it holds a
package, else the first name of those that do. -/
def IsChosen (t : FileTree) (dir : Path) (name : String) : Prop :=
  if t.hasMetadata (dir.child anyPlatform) then name = anyPlatform
  else ∀ other, Path.isEntryName other = true → t.hasMetadata (dir.child other) = true → name ≤ other

theorem latestVersion?_eq_some (ht : t.WellFormed) {dir : Path} (hdir : dir ≠ []) {name : String}
    (h : t.latestVersion? dir = some name) : t.IsNewest dir name := by
  unfold latestVersion? at h
  dsimp only at h
  obtain ⟨⟨v, name'⟩, hnewest, hname⟩ := Option.map_eq_some_iff.1 h
  cases hname
  obtain ⟨hmem, hmax⟩ := newest?_eq_some hnewest
  obtain ⟨name', hlisted, hparse⟩ := List.mem_filterMap.1 hmem
  obtain ⟨v', hparse, hpair⟩ := Option.map_eq_some_iff.1 hparse
  cases hpair
  obtain ⟨hlisted, hdirectory⟩ := List.mem_filter.1 hlisted
  refine ⟨v, hparse, hdirectory, fun other w hother hw hotherdir hne => ?_⟩
  obtain ⟨place, hfind⟩ := isDirectory_eq_true.1 hotherdir
  have hother : (w, other) ∈ ((t.listed dir).filter fun n => t.isDirectory (dir.child n)).filterMap
      fun n => (Version.parse? n).map fun v => (v, n) := by
    have hlisted := ht.mem_listed hdir hother hfind
    refine List.mem_filterMap.2 ⟨other, List.mem_filter.2 ⟨hlisted, hotherdir⟩, ?_⟩
    rw [hw]
    rfl
  have hle := hmax _ hother
  -- the text of a version is determined by it, so other names are those of other versions
  have hversion : w.order v ≠ .eq := fun heq => by
    rw [LawfulEqCmp.eq_of_compare heq] at hw
    exact hne (Version.parse?_inj hw hparse)
  cases horder : w.order v with
  | lt => rfl
  | eq => exact absurd horder hversion
  | gt => rw [horder] at hle; cases hle

theorem platformDirectory?_eq_some (ht : t.WellFormed) {dir path : Path} (hdir : dir ≠ [])
    (h : t.platformDirectory? dir = some path) : ∃ platform, path = dir.child platform ∧
      Path.isEntryName platform = true ∧ t.hasMetadata path = true ∧ t.IsChosen dir platform := by
  unfold platformDirectory? at h
  split_ifs at h with hany
  · cases h
    exact ⟨anyPlatform, rfl, by decide, hany, by rw [IsChosen, if_pos hany]⟩
  · obtain ⟨platform, hhead, rfl⟩ := Option.map_eq_some_iff.1 h
    obtain ⟨hmem, hmin⟩ := head?_sortNames hhead
    obtain ⟨hlisted, hmetadata⟩ := List.mem_filter.1 hmem
    refine ⟨platform, rfl, ht.isEntryName_of_mem_listed hlisted, hmetadata, ?_⟩
    rw [IsChosen, if_neg hany]
    intro other hother hothermetadata
    obtain ⟨place, hfind⟩ := find_of_hasMetadata (Path.child_ne_nil hother dir) hothermetadata
    exact hmin other (List.mem_filter.2 ⟨ht.mem_listed hdir hother hfind, hothermetadata⟩)

/-- The directory of a package in a repository. -/
def packageDirectory (repository : Path) (p : PackageName) : Path :=
  (repository.child p.organization).child p.name

/-- A repository has a package for some coordinates, under a version and a platform. -/
structure Holds (t : FileTree) (repository : Path) (p : PackageName) (version platform : String) :
    Prop where
  organization : Path.isPlainName p.organization = true
  name : Path.isPlainName p.name = true
  plainVersion : Path.isPlainName version = true
  entryPlatform : Path.isEntryName platform = true
  requested : p.version ≠ "" → version = p.version
  newest : p.version = "" → t.IsNewest (packageDirectory repository p) version
  metadata :
    t.hasMetadata (((packageDirectory repository p).child version).child platform) = true
  chosen : t.IsChosen ((packageDirectory repository p).child version) platform

theorem resolveIn?_eq_some (ht : t.WellFormed) {p : PackageName} (hp : p.isPlain = true)
    {repository path : Path} (h : t.resolveIn? p repository = some path) :
    ∃ version platform, t.Holds repository p version platform ∧
      path = ((packageDirectory repository p).child version).child platform := by
  simp only [PackageName.isPlain, Bool.and_eq_true, Bool.or_eq_true] at hp
  obtain ⟨⟨horganization, hname⟩, hversion⟩ := hp
  have hdir : packageDirectory repository p ≠ [] :=
    Path.child_ne_nil (Path.isEntryName_of_isPlainName hname) _
  unfold resolveIn? at h
  rw [← packageDirectory] at h
  dsimp only at h
  have hfound : ∃ version, Path.isPlainName version = true ∧ (p.version ≠ "" → version = p.version) ∧
      (p.version = "" → t.IsNewest (packageDirectory repository p) version) ∧
      t.platformDirectory? ((packageDirectory repository p).child version) = some path := by
    split_ifs at h with hdirectory hopen
    · obtain ⟨version, hlatest, h⟩ := Option.bind_eq_some_iff.1 h
      have hnewest := latestVersion?_eq_some ht hdir hlatest
      have hplain : Path.isPlainName version = true := by
        obtain ⟨v, hparse, -⟩ := hnewest
        exact Version.isPlainName_of_parse? hparse
      exact ⟨version, hplain, fun hne => absurd (String.isEmpty_iff.1 hopen) hne, fun _ => hnewest, h⟩
    · exact ⟨p.version, hversion.resolve_left hopen, fun _ => rfl,
        fun hempty => absurd (String.isEmpty_iff.2 hempty) hopen, h⟩
  obtain ⟨version, hplain, hrequested, hnewest, h⟩ := hfound
  obtain ⟨platform, rfl, hplatform, hmetadata, hchosen⟩ := platformDirectory?_eq_some ht
    (Path.child_ne_nil (Path.isEntryName_of_isPlainName hplain) _) h
  exact ⟨version, platform, ⟨horganization, hname, hplain, hplatform, hrequested, hnewest, hmetadata,
    hchosen⟩, rfl⟩

/-- What a repository holds lies below it. -/
theorem Holds.place {repository : Path} {p : PackageName} {version platform : String}
    (h : t.Holds repository p version platform) : ∃ place, t.place repository = .ok place ∧
      t.place (((packageDirectory repository p).child version).child platform)
        = .ok (place ++ [p.organization, p.name, version, platform]) := by
  obtain ⟨place, content, hfind⟩ := isFile_eq_true.1 h.metadata
  have hmetadata := (find_eq_ok.1 hfind).2.2.1
  obtain ⟨directory, hplatform, -⟩ := (place_child_eq_ok (by decide)).1 hmetadata
  obtain ⟨d, hversion, -, rfl⟩ := (place_child_eq_ok h.entryPlatform).1 hplatform
  obtain ⟨v, hname, -, rfl⟩ :=
    (place_child_eq_ok (Path.isEntryName_of_isPlainName h.plainVersion)).1 hversion
  obtain ⟨n, horganization, -, rfl⟩ :=
    (place_child_eq_ok (Path.isEntryName_of_isPlainName h.name)).1 hname
  obtain ⟨o, hrepository, -, rfl⟩ :=
    (place_child_eq_ok (Path.isEntryName_of_isPlainName h.organization)).1 horganization
  exact ⟨o, hrepository, by simpa using hplatform⟩

/-- Coordinates are resolved each on their own and in order. What is found for some lies in a
repository, below the names of the coordinates, the version and the platform, and no repository before
that one has anything for them. -/
theorem resolveAll_inside (ht : t.WellFormed) (repositories : List Path) (ps : List PackageName) :
    (t.resolveAll repositories ps).map ([·]) = ps.map (fun p => t.resolveAll repositories [p]) ∧
    ∀ (i : Nat) p path, ps[i]? = some p → (t.resolveAll repositories ps)[i]? = some (some path) →
      ∃ before repository after version platform,
        repositories = before ++ repository :: after ∧
        (∀ earlier ∈ before, t.resolveAll [earlier] [p] = [none]) ∧
        t.Holds repository p version platform ∧
        path = (((repository.child p.organization).child p.name).child version).child platform ∧
        ∃ place, t.place repository = .ok place ∧
          t.place path = .ok (place ++ [p.organization, p.name, version, platform]) := by
  refine ⟨by rw [resolveAll, List.map_map]; rfl, fun i p path hp hpath => ?_⟩
  have hresolved : t.resolve? repositories p = some path := by
    rwa [resolveAll, List.getElem?_map, hp, Option.map_some, Option.some.injEq] at hpath
  unfold resolve? at hresolved
  split_ifs at hresolved with hplain
  obtain ⟨before, repository, after, rfl, hfound, hbefore⟩ := List.findSome?_eq_some_iff.1 hresolved
  obtain ⟨version, platform, hholds, rfl⟩ := resolveIn?_eq_some ht hplain hfound
  refine ⟨before, repository, after, version, platform, rfl, fun earlier hearlier => ?_, hholds, rfl,
    hholds.place⟩
  simp [resolveAll, resolve?, hbefore earlier hearlier]

/-- A repository with two versions of a package, the newer one for one platform only. -/
def twoVersions : FileTree :=
  (empty.writeFile ["/", "repo", "wso2", "http", "1.9.0", "any", "package.json"] .binary).writeFile
    ["/", "repo", "wso2", "http", "1.10.0", "java17", "package.json"] .binary

theorem wellFormed_twoVersions : twoVersions.WellFormed := by
  have hone := wellFormed_empty.writeFile ["/"] ["repo", "wso2", "http", "1.9.0", "any", "package.json"]
    (by decide) (by decide) (by decide) .binary
  exact hone.writeFile ["/"] ["repo", "wso2", "http", "1.10.0", "java17", "package.json"] (by decide)
    (by decide) (by decide) .binary

/-- A version that is left open is the greatest, though it is not the last by name. -/
theorem resolveAll_inside_two_versions :
    let repository := Path.ofString "repo"
    let p : PackageName := ⟨"wso2", "http", ""⟩
    let path := Path.ofString "repo/wso2/http/1.10.0/java17"
    twoVersions.WellFormed ∧ twoVersions.resolveAll [repository] [p] = [some path] ∧
      ∃ version platform, twoVersions.Holds repository p version platform ∧
        path = (((repository.child p.organization).child p.name).child version).child platform := by
  intro repository p path
  have hresolved : twoVersions.resolveAll [repository] [p] = [some path] := by decide +kernel
  obtain ⟨before, repository', after, version, platform, hsplit, -, hholds, hpath, -⟩ :=
    (resolveAll_inside wellFormed_twoVersions [repository] [p]).2 0 p path rfl (by rw [hresolved]; rfl)
  have hrepository : repository' = repository := by
    have hmem : repository' ∈ [repository] := by rw [hsplit]; simp
    exact List.mem_singleton.1 hmem
  rw [hrepository] at hholds hpath
  exact ⟨wellFormed_twoVersions, hresolved, version, platform, hholds, hpath⟩

/-- A platform is any name in a directory, so a path that is found need not be one of ordinary names:
a directory may have a backslash in its name. -/
theorem platform_not_plain :
    let t := empty.writeFile ["/", "repo", "wso2", "http", "1.0.0", "a\\b", "package.json"] .binary
    let repository := Path.ofString "repo"
    let path := Path.ofString "repo/wso2/http/1.0.0/a\\b"
    t.WellFormed ∧ t.resolveAll [repository] [⟨"wso2", "http", "1.0.0"⟩] = [some path] ∧
      ¬ ∃ organization name version platform, Path.isPlainName organization = true ∧
        Path.isPlainName name = true ∧ Path.isPlainName version = true ∧
        Path.isPlainName platform = true ∧
        path = (((repository.child organization).child name).child version).child platform := by
  intro t repository path
  refine ⟨wellFormed_empty.writeFile ["/"] ["repo", "wso2", "http", "1.0.0", "a\\b", "package.json"]
    (by decide) (by decide) (by decide) _, by decide +kernel, ?_⟩
  rintro ⟨organization, name, version, platform, horganization, hname, hversion, hplatform, hpath⟩
  have hchild : ∀ {dir : Path} {n : String}, Path.isPlainName n = true → '\\' ∉ dir →
      '\\' ∉ dir.child n := by
    intro dir n hn hdir hmem
    rcases (Path.mem_child (Path.isEntryName_of_isPlainName hn) dir).2 hmem with hmem | hmem | hmem
    · exact hdir hmem
    · simp [Path.isPlainName, hmem] at hn
    · cases hmem
  have hplain := hchild hplatform (hchild hversion (hchild hname (hchild horganization
    (show '\\' ∉ repository by decide))))
  rw [← hpath] at hplain
  exact hplain (by decide)

end FileTree

end ConnectorCatalog
