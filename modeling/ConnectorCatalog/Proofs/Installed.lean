import ConnectorCatalog.Proofs.Files.Grown
import ConnectorCatalog.Proofs.Resolve

/-!
# Packages that stay found

Where files and directories come in and none go, a package that was found for some coordinates is found
still, though perhaps elsewhere (`resolveAll_grown`). Only a version that is left open can be hidden: by
the directory of a newer one that has come in and holds no package (`newer_version_hides_package`).
-/

namespace ConnectorCatalog

theorem Version.order_asymm {v w : Version} (h : v.order w = .lt) : w.order v ≠ .lt := by
  have hswap : v.order w = (w.order v).swap := Std.OrientedCmp.eq_swap
  intro h'
  rw [h, h'] at hswap
  cases hswap

namespace FileTree

variable {t t' : FileTree}

/-- Only one name is that of the newest version. -/
theorem IsNewest.unique {dir : Path} {name name' : String} (h : t.IsNewest dir name)
    (h' : t.IsNewest dir name') : name = name' := by
  obtain ⟨v, hparse, hdirectory, hmax⟩ := h
  obtain ⟨v', hparse', hdirectory', hmax'⟩ := h'
  by_contra hne
  have hlt := hmax name' v' (Path.isEntryName_of_isPlainName (Version.isPlainName_of_parse? hparse'))
    hparse' hdirectory' (Ne.symm hne)
  have hgt := hmax' name v (Path.isEntryName_of_isPlainName (Version.isPlainName_of_parse? hparse))
    hparse hdirectory hne
  exact Version.order_asymm hlt hgt

/-- Of some directories with the names of versions one is the newest. -/
theorem exists_latestVersion? (ht : t.WellFormed) {dir : Path} (hdir : dir ≠ []) {name : String}
    {v : Version} (hparse : Version.parse? name = some v)
    (hdirectory : t.isDirectory (dir.child name) = true) :
    ∃ newest, t.latestVersion? dir = some newest := by
  obtain ⟨place, hfind⟩ := isDirectory_eq_true.1 hdirectory
  have hname := Path.isEntryName_of_isPlainName (Version.isPlainName_of_parse? hparse)
  have hlisted := ht.mem_listed hdir hname hfind
  have hmem : (v, name) ∈ ((t.listed dir).filter fun n => t.isDirectory (dir.child n)).filterMap
      fun n => (Version.parse? n).map fun v => (v, n) := by
    refine List.mem_filterMap.2 ⟨name, List.mem_filter.2 ⟨hlisted, hdirectory⟩, ?_⟩
    rw [hparse]
    rfl
  unfold latestVersion?
  dsimp only
  rcases hnewest : newest? _ with _ | x
  · rw [newest?_eq_none hnewest] at hmem
    cases hmem
  · exact ⟨x.2, rfl⟩

/-- A directory that holds a package for some platform gives one. -/
theorem exists_platformDirectory? (ht : t.WellFormed) {dir : Path} (hdir : dir ≠ []) {platform : String}
    (hplatform : Path.isEntryName platform = true) (h : t.hasMetadata (dir.child platform) = true) :
    ∃ path, t.platformDirectory? dir = some path := by
  unfold platformDirectory?
  split_ifs
  · exact ⟨_, rfl⟩
  · obtain ⟨place, hfind⟩ := find_of_hasMetadata (Path.child_ne_nil hplatform dir) h
    have hmem : platform ∈ (t.listed dir).filter fun n => t.hasMetadata (dir.child n) :=
      List.mem_filter.2 ⟨ht.mem_listed hdir hplatform hfind, h⟩
    rcases hsorted : sortNames ((t.listed dir).filter fun n => t.hasMetadata (dir.child n))
      with _ | ⟨first, rest⟩
    · rw [← (sortNames_perm _).mem_iff, hsorted] at hmem
      cases hmem
    · exact ⟨dir.child first, rfl⟩

/-- A directory that gave a package gives one still when more has come in. -/
theorem Grown.platformDirectory? (h : t.Grown t') (ht : t.WellFormed) (ht' : t'.WellFormed)
    {dir path : Path} (hdir : dir ≠ []) (hfound : t.platformDirectory? dir = some path) :
    ∃ path', t'.platformDirectory? dir = some path' := by
  obtain ⟨platform, rfl, hplatform, hmetadata, -⟩ := platformDirectory?_eq_some ht hdir hfound
  exact exists_platformDirectory? ht' hdir hplatform (h.isFile hmetadata)

/-- The newest version of a package in a repository of `t'` is a directory that `t` does not have, and
holds no package for any platform. -/
def HasHollowNewest (t t' : FileTree) (repository : Path) (p : PackageName) : Prop :=
  ∃ version, t'.IsNewest (packageDirectory repository p) version ∧
    t.isDirectory ((packageDirectory repository p).child version) = false ∧
    ∀ platform, Path.isEntryName platform = true →
      t'.hasMetadata (((packageDirectory repository p).child version).child platform) = false

/-- The version that is newest when more has come in holds a package, if the one that was newest
before did and no hollow one has taken its place. -/
theorem Grown.newest (h : t.Grown t') (ht : t.WellFormed) (ht' : t'.WellFormed) {repository : Path}
    {p : PackageName} (hdir : packageDirectory repository p ≠ []) {version : String} {path : Path}
    (hlatest : t.latestVersion? (packageDirectory repository p) = some version)
    (hfound : t.platformDirectory? ((packageDirectory repository p).child version) = some path)
    (hwhole : ¬ t.HasHollowNewest t' repository p) :
    ∃ version' path', t'.latestVersion? (packageDirectory repository p) = some version' ∧
      t'.platformDirectory? ((packageDirectory repository p).child version') = some path' := by
  obtain ⟨v, hparse, hdirectory, hmax⟩ := latestVersion?_eq_some ht hdir hlatest
  obtain ⟨version', hlatest'⟩ := exists_latestVersion? ht' hdir hparse (h.isDirectory hdirectory)
  obtain ⟨v', hparse', -, hmax'⟩ := latestVersion?_eq_some ht' hdir hlatest'
  have hentry := Path.isEntryName_of_isPlainName (Version.isPlainName_of_parse? hparse)
  have hentry' := Path.isEntryName_of_isPlainName (Version.isPlainName_of_parse? hparse')
  have hne : (packageDirectory repository p).child version' ≠ [] := Path.child_ne_nil hentry' _
  refine ⟨version', ?_⟩
  cases hold : t.isDirectory ((packageDirectory repository p).child version') with
  | true =>
    -- both versions are there before and after, so each is at least as new as the other
    have heq : version' = version := by
      by_contra hother
      have hlt := hmax version' v' hentry' hparse' hold hother
      have hgt := hmax' version v hentry hparse (h.isDirectory hdirectory) (Ne.symm hother)
      exact Version.order_asymm hlt hgt
    subst heq
    obtain ⟨path', hpath'⟩ := h.platformDirectory? ht ht' hne hfound
    exact ⟨path', hlatest', hpath'⟩
  | false =>
    unfold HasHollowNewest at hwhole
    push Not at hwhole
    obtain ⟨platform, hplatform, hmetadata⟩ :=
      hwhole version' (latestVersion?_eq_some ht' hdir hlatest') hold
    obtain ⟨path', hpath'⟩ := exists_platformDirectory? ht' hne hplatform (by simpa using hmetadata)
    exact ⟨path', hlatest', hpath'⟩

/-- A repository that had a package has it still, if no hollow version hides it. -/
theorem Grown.resolveIn? (h : t.Grown t') (ht : t.WellFormed) (ht' : t'.WellFormed)
    {p : PackageName} (hp : p.isPlain = true) {repository path : Path}
    (hfound : t.resolveIn? p repository = some path)
    (hwhole : p.version = "" → ¬ t.HasHollowNewest t' repository p) :
    ∃ path', t'.resolveIn? p repository = some path' := by
  simp only [PackageName.isPlain, Bool.and_eq_true, Bool.or_eq_true] at hp
  obtain ⟨⟨-, hname⟩, hversion⟩ := hp
  have hdir : packageDirectory repository p ≠ [] :=
    Path.child_ne_nil (Path.isEntryName_of_isPlainName hname) _
  unfold FileTree.resolveIn? at hfound ⊢
  rw [← packageDirectory] at hfound ⊢
  dsimp only at hfound ⊢
  split_ifs at hfound with hdirectory hopen
  · rw [if_pos (h.isDirectory hdirectory), if_pos hopen]
    obtain ⟨version, hlatest, hfound⟩ := Option.bind_eq_some_iff.1 hfound
    obtain ⟨version', path', hlatest', hpath'⟩ :=
      h.newest ht ht' hdir hlatest hfound (hwhole (String.isEmpty_iff.1 hopen))
    exact ⟨path', Option.bind_eq_some_iff.2 ⟨version', hlatest', hpath'⟩⟩
  · rw [if_pos (h.isDirectory hdirectory), if_neg hopen]
    have hplain := Path.isEntryName_of_isPlainName (hversion.resolve_left hopen)
    exact h.platformDirectory? ht ht' (Path.child_ne_nil hplain _) hfound

/-- Coordinates that lead to a package lead to one still when files and directories have come in and
none have gone: if they name a version, or if some repository that has the package is not one whose
newest version has come in without a package. -/
theorem resolveAll_grown (h : t.Grown t') (ht : t.WellFormed) (ht' : t'.WellFormed)
    (repositories : List Path) (ps : List PackageName) (i : Nat) (p : PackageName) (path : Path)
    (hp : ps[i]? = some p) (hpath : (t.resolveAll repositories ps)[i]? = some (some path))
    (hwhole : p.version = "" → ∃ repository ∈ repositories,
      t.resolveAll [repository] [p] ≠ [none] ∧ ¬ t.HasHollowNewest t' repository p) :
    ∃ path', (t'.resolveAll repositories ps)[i]? = some (some path') := by
  have hresolved : t.resolve? repositories p = some path := by
    rwa [resolveAll, List.getElem?_map, hp, Option.map_some, Option.some.injEq] at hpath
  have hplain : p.isPlain = true := by
    unfold resolve? at hresolved
    split_ifs at hresolved with hplain
    exact hplain
  have hhad : ∃ repository ∈ repositories, ∃ found, t.resolveIn? p repository = some found ∧
      (p.version = "" → ¬ t.HasHollowNewest t' repository p) := by
    by_cases hopen : p.version = ""
    · obtain ⟨repository, hmem, hfound, hnewest⟩ := hwhole hopen
      rcases hin : t.resolveIn? p repository with _ | found
      · simp [resolveAll, resolve?, hplain, hin] at hfound
      · exact ⟨repository, hmem, found, hin, fun _ => hnewest⟩
    · rw [resolve?, if_pos hplain] at hresolved
      obtain ⟨repository, hmem, hin⟩ := List.exists_of_findSome?_eq_some hresolved
      exact ⟨repository, hmem, path, hin, fun hversion => absurd hversion hopen⟩
  obtain ⟨repository, hmem, found, hin, hnewest⟩ := hhad
  obtain ⟨path', hin'⟩ := h.resolveIn? ht ht' hplain hin hnewest
  have hsome : (t'.resolve? repositories p).isSome = true := by
    rw [resolve?, if_pos hplain, List.isSome_findSome?, List.any_eq_true]
    exact ⟨repository, hmem, by rw [hin']; rfl⟩
  obtain ⟨path', hresolved'⟩ := Option.isSome_iff_exists.1 hsome
  refine ⟨path', ?_⟩
  rw [resolveAll, List.getElem?_map, hp, Option.map_some, hresolved']

/-- A repository with one version of a package. -/
def oneVersion : FileTree :=
  empty.writeFile ["/", "repo", "wso2", "http", "1.9.0", "any", "package.json"] .binary

theorem wellFormed_oneVersion : oneVersion.WellFormed :=
  wellFormed_empty.writeFile ["/"] ["repo", "wso2", "http", "1.9.0", "any", "package.json"]
    (by decide) (by decide) (by decide) .binary

/-- A newer version that comes in with a package takes the place of the one that was found. -/
theorem resolveAll_grown_newer_version :
    let repository := Path.ofString "repo"
    let p : PackageName := ⟨"wso2", "http", ""⟩
    oneVersion.Grown twoVersions ∧
      oneVersion.resolveAll [repository] [p] = [some (Path.ofString "repo/wso2/http/1.9.0/any")] ∧
      ¬ oneVersion.HasHollowNewest twoVersions repository p ∧
      ∃ path', (twoVersions.resolveAll [repository] [p])[0]? = some (some path') := by
  intro repository p
  have hgrown : oneVersion.Grown twoVersions := grown_writeFile (by decide +kernel) _
  have hfound : oneVersion.resolveAll [repository] [p]
      = [some (Path.ofString "repo/wso2/http/1.9.0/any")] := by decide +kernel
  have hnewest : twoVersions.IsNewest (packageDirectory repository p) "1.10.0" :=
    latestVersion?_eq_some wellFormed_twoVersions (by decide) (by decide +kernel)
  have hwhole : ¬ oneVersion.HasHollowNewest twoVersions repository p := by
    rintro ⟨version, hversion, -, hhollow⟩
    rw [hversion.unique hnewest] at hhollow
    exact absurd (hhollow "java17" (by decide)) (by decide +kernel)
  refine ⟨hgrown, hfound, hwhole, ?_⟩
  exact resolveAll_grown hgrown wellFormed_oneVersion wellFormed_twoVersions [repository] [p] 0 p _ rfl
    (by rw [hfound]; rfl)
    fun _ => ⟨repository, List.mem_singleton_self _, by rw [hfound]; exact nofun, hwhole⟩

/-- The directory of a newer version hides the package that was found, as long as nothing has been put
into it. -/
theorem newer_version_hides_package :
    let t := oneVersion.makeDirectories ["/", "repo", "wso2", "http", "1.10.0"]
    let repository := Path.ofString "repo"
    let p : PackageName := ⟨"wso2", "http", ""⟩
    oneVersion.WellFormed ∧ t.WellFormed ∧ oneVersion.Grown t ∧
      oneVersion.resolveAll [repository] [p] = [some (Path.ofString "repo/wso2/http/1.9.0/any")] ∧
      t.resolveAll [repository] [p] = [none] :=
  ⟨wellFormed_oneVersion, wellFormed_oneVersion.makeDirectories ["/"] ["repo", "wso2", "http", "1.10.0"]
    (by decide) (by decide), grown_makeDirectories _ _, by decide +kernel, by decide +kernel⟩

end FileTree

end ConnectorCatalog
