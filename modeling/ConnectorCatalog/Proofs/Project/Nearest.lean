import ConnectorCatalog.Proofs.Files.Ancestors
import ConnectorCatalog.Proofs.Project.Root

/-!
# The nearest root

A directory is loaded as it is, and any other path as the nearest root around it (`load_nearest`).
The search passes over directories that are no roots; one that only looks like a compiled package, with
metadata of something else, is none.
-/

namespace ConnectorCatalog.FileTree

variable {t : FileTree} {p : Path} {project : Project}

/-- The search for a root passes over a directory. -/
def PassesOver (t : FileTree) (dir : Path) : Prop :=
  t.loadRoot? dir = none ∨ ∃ path cause, t.loadRoot? dir = some (.error (.invalidMetadata path cause))

/-- The search passes over a directory without a manifest, if it does not look like a compiled package
or has metadata of something else. -/
theorem passesOver_iff {dir : Path} : t.PassesOver dir ↔ t.isFile (dir.child manifestName) = false ∧
    (t.isBalaRoot dir = true → ∃ content cause,
      t.readText (dir.child metadataName) = .ok content ∧ decodeMetadata content = .error cause) := by
  unfold PassesOver loadRoot?
  split_ifs with hmanifest hbala
  · refine iff_of_false ?_ fun h => Bool.false_ne_true (h.1.symm.trans hmanifest)
    rintro (h | ⟨path, cause, h⟩)
    · cases h
    · exact (about_of_loadBuild (Option.some.inj h)).2 path cause rfl
  · rw [Bool.not_eq_true] at hmanifest
    constructor
    · rintro (h | ⟨path, cause, h⟩)
      · cases h
      · obtain ⟨content, hcontent, hcause⟩ := (about_of_loadBala (Option.some.inj h)).2 path cause rfl
        exact ⟨hmanifest, fun _ => ⟨content, cause, hcontent, hcause⟩⟩
    · rintro ⟨-, h⟩
      obtain ⟨content, cause, hcontent, hcause⟩ := h hbala
      refine .inr ⟨dir.child metadataName, cause, ?_⟩
      unfold decodeMetadata at hcause
      unfold loadBala
      simp only [hcontent, hcause]
  · rw [Bool.not_eq_true] at hmanifest
    exact iff_of_true (.inl rfl) ⟨hmanifest, fun h => absurd h hbala⟩

theorem PassesOver.not_isRoot {dir : Path} (h : t.PassesOver dir) : ¬ t.IsRoot dir := by
  obtain ⟨hmanifest, hbala⟩ := passesOver_iff.1 h
  rintro (hroot | ⟨hroot, content, found, hcontent, hfound⟩)
  · rw [hmanifest] at hroot
    cases hroot
  · obtain ⟨content', cause, hcontent', hcause⟩ := hbala hroot
    rw [hcontent] at hcontent'
    cases hcontent'
    rw [hfound] at hcause
    cases hcause

/-- How a search through directories ends: with nothing if it passes over all of them, else with what
the first that it does not pass over loads as. -/
def SearchEnds (t : FileTree) (dirs : List Path) : Option (Except ProjectError Project) → Prop
  | none => ∀ dir ∈ dirs, t.PassesOver dir
  | some result => ∃ between root beyond, dirs = between ++ root :: beyond ∧
      (∀ dir ∈ between, t.PassesOver dir) ∧ ¬ t.PassesOver root ∧ t.loadRoot? root = some result

theorem SearchEnds.cons {dir : Path} {dirs : List Path}
    {result : Option (Except ProjectError Project)} (hdir : t.PassesOver dir)
    (h : t.SearchEnds dirs result) : t.SearchEnds (dir :: dirs) result := by
  cases result with
  | none => exact List.forall_mem_cons.2 ⟨hdir, h⟩
  | some result =>
    obtain ⟨between, root, beyond, rfl, hbetween, hroot⟩ := h
    exact ⟨dir :: between, root, beyond, rfl, List.forall_mem_cons.2 ⟨hdir, hbetween⟩, hroot⟩

/-- A directory at the end makes no difference if it is passed over with all before it. -/
theorem SearchEnds.of_concat {dirs : List Path} {last : Path}
    {result : Option (Except ProjectError Project)}
    (hlast : (∀ dir ∈ dirs, t.PassesOver dir) → t.PassesOver last)
    (h : t.SearchEnds (dirs ++ [last]) result) : t.SearchEnds dirs result := by
  cases result with
  | none => exact fun dir hdir => h dir (List.mem_append_left _ hdir)
  | some result =>
    obtain ⟨between, root, beyond, hsplit, hbetween, hpasses, hroot⟩ := h
    rcases List.eq_nil_or_concat beyond with rfl | ⟨beyond, dir, rfl⟩
    · obtain ⟨rfl, hlast'⟩ := List.append_inj' hsplit rfl
      rw [List.singleton_inj.1 hlast'] at hlast
      exact absurd (hlast hbetween) hpasses
    · rw [List.concat_eq_append, ← List.cons_append, ← List.append_assoc] at hsplit
      exact ⟨between, root, beyond, (List.append_inj' hsplit rfl).1, hbetween, hpasses, hroot⟩

theorem searchEnds_loadNearest? (dirs : List Path) : t.SearchEnds dirs (t.loadNearest? dirs) := by
  induction dirs with
  | nil => exact nofun
  | cons dir dirs ih =>
    unfold loadNearest?
    split
    · exact ih.cons (.inl ‹_›)
    · exact ih.cons (.inr ⟨_, _, ‹_›⟩)
    · rename_i result hmetadata hresult
      refine ⟨[], dir, dirs, rfl, nofun, ?_, hresult⟩
      rintro (h | ⟨path, cause, h⟩)
      · rw [hresult] at h
        cases h
      · rw [hresult] at h
        cases h
        exact hmetadata path cause rfl

/-- The current directory is passed over or not, whichever way it is written. -/
theorem passesOver_dot (h : t.PassesOver (Path.ofString ".")) : t.PassesOver [] := by
  obtain ⟨hmanifest, hbala⟩ := passesOver_iff.1 h
  have hfind : ∀ {name}, Path.isEntryName name = true → ∀ {place node},
      t.find (Path.child [] name) = .ok (place, node) →
        t.find ((Path.ofString ".").child name) = .ok (place, node) :=
    fun hname _ _ => (find_child_dot hname).1
  refine passesOver_iff.2 ⟨?_, fun hempty => ?_⟩
  · rw [Bool.eq_false_iff] at hmanifest ⊢
    intro hfile
    obtain ⟨place, content, hfile⟩ := isFile_eq_true.1 hfile
    exact hmanifest (isFile_eq_true.2 ⟨place, content, hfind (by decide) hfile⟩)
  · unfold isBalaRoot at hempty
    rw [Bool.and_eq_true] at hempty
    obtain ⟨place, file, hfile⟩ := isFile_eq_true.1 hempty.1
    obtain ⟨modules, hmodules⟩ := isDirectory_eq_true.1 hempty.2
    have hfile' := hfind (by decide) hfile
    obtain ⟨content, cause, hcontent, hcause⟩ := hbala (by
      rw [isBalaRoot, Bool.and_eq_true]
      exact ⟨isFile_eq_true.2 ⟨place, file, hfile'⟩,
        isDirectory_eq_true.2 ⟨modules, hfind (by decide) hmodules⟩⟩)
    refine ⟨content, cause, ?_, hcause⟩
    unfold readText at hcontent ⊢
    rwa [hfile, ← hfile']

/-! ### Loading a path -/

/-- The root from which a path is loaded: a directory is its own, and of what is around another path
it is the nearest that is a root at all. -/
def NearestRoot (t : FileTree) (p root : Path) : Prop :=
  if t.isDirectory p then root = p
  else ∃ between beyond, p.around = between ++ root :: beyond ∧ ∀ dir ∈ between, ¬ t.IsRoot dir

/-- The search from the parent of a path goes through what is around it. -/
theorem searchEnds_around (t : FileTree) (p : Path) :
    t.SearchEnds p.around (t.loadNearest? (p.parent?.getD (Path.ofString ".")).ancestors) := by
  unfold Path.around
  cases hparent : p.parent? with
  | some parent =>
    have hne : parent.ancestors ≠ [] := List.cons_ne_nil _ _
    rw [Path.properAncestors_eq hparent, if_neg hne]
    exact searchEnds_loadNearest? _
  | none =>
    rw [if_pos (List.head?_eq_none_iff.1 hparent)]
    have hdirs : ((none : Option Path).getD (Path.ofString ".")).ancestors
        = [Path.ofString ".", []] := by decide
    rw [hdirs]
    exact SearchEnds.of_concat (fun h => passesOver_dot (h _ (List.mem_singleton_self _)))
      (searchEnds_loadNearest? [Path.ofString ".", []])

/-- What a path is loaded as. A directory is loaded itself and any other path from the nearest root
around it, as the package there with all its sources; without a root around it a source file is loaded
alone. No file occurs twice. -/
theorem load_nearest (ht : t.WellFormed) (hd : t.Distinct) (h : t.load p = .ok project) :
    ((∃ root, t.NearestRoot p root ∧ t.IsRoot root ∧
        (t.IsBuild root project ∨ t.IsBala root project)) ∨
      (t.isDirectory p = false ∧ (∀ dir ∈ p.around, ¬ t.IsRoot dir) ∧
        p.extension? = some "bal".toList ∧ t.IsSingleFile p project)) ∧
    (t.placesOf project).Nodup := by
  have hnodup : ∀ {root}, t.IsBuild root project ∨ t.IsBala root project →
      (t.placesOf project).Nodup := fun h => h.elim IsBuild.nodup IsBala.nodup
  unfold load at h
  cases hdirectory : t.isDirectory p with
  | true =>
    rw [hdirectory, if_pos rfl] at h
    cases hroot : t.loadRoot? p with
    | none => rw [hroot] at h; cases h
    | some result =>
      rw [hroot, Option.getD_some] at h
      rw [h] at hroot
      obtain ⟨hisRoot, hproject⟩ := of_loadRoot?_eq_ok ht hd hroot
      exact ⟨.inl ⟨p, by rw [NearestRoot, if_pos hdirectory], hisRoot, hproject⟩, hnodup hproject⟩
  | false =>
    rw [hdirectory, if_neg Bool.false_ne_true] at h
    dsimp only at h
    have hends := searchEnds_around t p
    cases hnearest : t.loadNearest? (p.parent?.getD (Path.ofString ".")).ancestors with
    | some result =>
      rw [hnearest] at h hends
      obtain ⟨between, root, beyond, haround, hbetween, -, hroot⟩ := hends
      dsimp only at h
      rw [h] at hroot
      obtain ⟨hisRoot, hproject⟩ := of_loadRoot?_eq_ok ht hd hroot
      refine ⟨.inl ⟨root, ?_, hisRoot, hproject⟩, hnodup hproject⟩
      rw [NearestRoot, hdirectory, if_neg Bool.false_ne_true]
      exact ⟨between, beyond, haround, fun dir hdir => (hbetween dir hdir).not_isRoot⟩
    | none =>
      rw [hnearest] at h hends
      dsimp only at h
      split_ifs at h with hextension
      have hfile := isSingleFile_of_loadFile h
      exact ⟨.inr ⟨rfl, fun dir hdir => (hends dir hdir).not_isRoot, hextension, hfile⟩,
        hfile.nodup⟩

/-- A project whose module holds a directory of modules and metadata of another kind. -/
def foreignMetadata : FileTree :=
  let manifest := empty.writeFile ["/", "work", "Ballerina.toml"]
    (.text "[package]\nname = \"shop\"\n")
  let document := manifest.writeFile ["/", "work", "modules", "db", "main.bal"] (.text "")
  let metadata := document.writeFile ["/", "work", "modules", "db", "package.json"] (.text "[]")
  metadata.makeDirectories ["/", "work", "modules", "db", "modules"]

theorem wellFormed_foreignMetadata : foreignMetadata.WellFormed := by
  have hmanifest := wellFormed_empty.writeFile ["/"] ["work", "Ballerina.toml"] (by decide) (by decide)
    (by decide) (.text "[package]\nname = \"shop\"\n")
  have hdocument := hmanifest.writeFile ["/"] ["work", "modules", "db", "main.bal"] (by decide)
    (by decide) (by decide) (.text "")
  have hmetadata := hdocument.writeFile ["/"] ["work", "modules", "db", "package.json"] (by decide)
    (by decide) (by decide) (.text "[]")
  exact hmetadata.makeDirectories ["/"] ["work", "modules", "db", "modules"] (by decide) (by decide)

/-- A file that is not there yet is loaded as the project around it, past the metadata. -/
theorem load_nearest_past_foreign_metadata :
    let p := Path.ofString "work/modules/db/new.bal"
    foreignMetadata.WellFormed ∧ foreignMetadata.Distinct ∧ ∃ project,
      foreignMetadata.load p = .ok project ∧ project.sourceRoot = "work" ∧
      ∃ root, foreignMetadata.NearestRoot p root ∧ foreignMetadata.IsRoot root ∧
        foreignMetadata.IsBuild root project := by
  intro p
  have hdistinct : foreignMetadata.Distinct := by unfold Distinct; decide
  have hloaded : (foreignMetadata.load p).map (fun project => (project.kind, project.sourceRoot))
      = .ok (.build, "work") := by decide +kernel
  cases h : foreignMetadata.load p with
  | error e => rw [h] at hloaded; cases hloaded
  | ok project =>
    rw [h] at hloaded
    obtain ⟨hkind, hroot⟩ := Prod.mk.inj (Except.ok.inj hloaded)
    refine ⟨wellFormed_foreignMetadata, hdistinct, project, rfl, hroot, ?_⟩
    obtain ⟨root, hnearest, hisRoot, hbuild | hbala⟩ | ⟨-, -, -, hfile⟩ :=
      (load_nearest wellFormed_foreignMetadata hdistinct h).1
    · exact ⟨root, hnearest, hisRoot, hbuild⟩
    · rw [hbala.kind] at hkind
      cases hkind
    · rw [hfile.kind] at hkind
      cases hkind

/-- The empty path has no parent, and what is loaded from it is the project in the current directory,
whose root is none of its ancestors. -/
theorem load_empty_path :
    let t := empty.writeFile ["/", "Ballerina.toml"] (.text "")
    t.WellFormed ∧ t.Distinct ∧ t.isDirectory [] = false ∧ ∃ project, t.load [] = .ok project ∧
      ∀ a ∈ Path.ancestors [], project.sourceRoot ≠ String.ofList a := by
  intro t
  have hwellFormed : t.WellFormed := wellFormed_empty.writeFile ["/"] ["Ballerina.toml"] (by decide)
    (by decide) (by decide) _
  have hloaded : (t.load []).map Project.sourceRoot = .ok "." := by decide +kernel
  cases h : t.load [] with
  | error e => rw [h] at hloaded; cases hloaded
  | ok project =>
    rw [h] at hloaded
    have hroot : project.sourceRoot = "." := Except.ok.inj hloaded
    refine ⟨hwellFormed, distinct_empty.writeFile _ _, by decide, project, rfl, fun a ha => ?_⟩
    rw [hroot, List.mem_singleton.1 ha]
    decide

end ConnectorCatalog.FileTree
