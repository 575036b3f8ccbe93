import ConnectorCatalog.Proofs.Files.Apart
import ConnectorCatalog.Proofs.Files.Distinct
import ConnectorCatalog.Proofs.Resolve
import ConnectorCatalog.Proofs.SortedNames
import ConnectorCatalog.Service.List
import ConnectorCatalog.Service.Lookup

/-!
# The order of a directory

The order in which directories list their names is lost when the names are sorted and when the newest
version among them is taken, for no two of them are the same version. So nothing that is loaded, found
or answered depends on it (`reordered_irrelevant`).
-/

namespace ConnectorCatalog

open Std

/-- The newest of some versions does not depend on their order, if each is there under one name. -/
theorem newest?_eq_of_perm {xs ys : List (Version × String)} (h : xs.Perm ys)
    (hinj : ∀ x ∈ xs, ∀ y ∈ xs, x.1 = y.1 → x = y) : newest? xs = newest? ys := by
  cases hx : newest? xs with
  | none =>
    rw [newest?_eq_none hx, List.nil_perm] at h
    rw [h]
    rfl
  | some x =>
    cases hy : newest? ys with
    | none =>
      rw [newest?_eq_none hy, List.perm_nil] at h
      rw [h] at hx
      cases hx
    | some y =>
      obtain ⟨hxmem, hxmax⟩ := newest?_eq_some hx
      obtain ⟨hymem, hymax⟩ := newest?_eq_some hy
      have hymem := h.mem_iff.2 hymem
      -- each is at most the other
      have heq : x.1.order y.1 = .eq :=
        OrientedCmp.isLE_antisymm (hymax x (h.mem_iff.1 hxmem)) (hxmax y hymem)
      rw [hinj x hxmem y hymem (LawfulEqCmp.eq_of_compare heq)]

namespace FileTree

/-- The same stands at each place of two trees, and what a directory of one lists a directory of the
other lists in some order. -/
structure Reordered (t t' : FileTree) : Prop where
  current : t'.current = t.current
  node : ∀ place, t'.node? place = t.node? place
  names : ∀ place, (t'.namesBelow place).Perm (t.namesBelow place)

/-- Entries in another order list directories in another order. -/
theorem reordered_of_perm {t : FileTree} (hd : t.Distinct) {entries : List (List String × FileNode)}
    (h : t.entries.Perm entries) : t.Reordered ⟨t.current, entries⟩ where
  current := rfl
  node := fun place => by rw [node?, node?, lookup_eq_of_perm h hd]
  names := fun _ => (h.filterMap _).symm

namespace Reordered

variable {t t' : FileTree} (h : t.Reordered t')

include h

theorem find_eq (p : Path) : t'.find p = t.find p := by
  have hfollow : ∀ place component, t'.follow place component = t.follow place component := by
    intro place component
    rw [follow, follow, h.node]
  have hfollowAll : ∀ cs place, t'.followAll place cs = t.followAll place cs := by
    intro cs
    induction cs with
    | nil => exact fun _ => rfl
    | cons c cs ih =>
      intro place
      rw [followAll, followAll, hfollow]
      simp only [ih]
  unfold find start
  rw [h.current]
  simp only [hfollowAll, h.node]

theorem isFile_eq : t'.isFile = t.isFile := funext fun p => by rw [isFile, isFile, h.find_eq]

theorem isDirectory_eq : t'.isDirectory = t.isDirectory :=
  funext fun p => by rw [isDirectory, isDirectory, h.find_eq]

theorem readText_eq : t'.readText = t.readText :=
  funext fun p => by rw [readText, readText, h.find_eq]

/-- A directory is listed in both trees or in neither. -/
theorem list_perm (dir : Path) : (∃ e, t.list dir = .error e ∧ t'.list dir = .error e) ∨
    ∃ names names', t.list dir = .ok names ∧ t'.list dir = .ok names' ∧ names'.Perm names := by
  unfold list
  rw [h.find_eq]
  rcases t.find dir with e | ⟨place, _ | content⟩
  · exact .inl ⟨e, rfl, rfl⟩
  · exact .inr ⟨_, _, rfl, rfl, h.names place⟩
  · exact .inl ⟨.notDirectory, rfl, rfl⟩

theorem listed_perm (dir : Path) : (t'.listed dir).Perm (t.listed dir) := by
  unfold listed
  obtain ⟨e, ht, ht'⟩ | ⟨names, names', ht, ht', hperm⟩ := h.list_perm dir
  · rw [ht, ht']
  · rw [ht, ht']
    exact hperm

/-! ### Loading -/

theorem sourceNames_eq (dir : Path) : t'.sourceNames dir = t.sourceNames dir := by
  unfold sourceNames
  obtain ⟨e, ht, ht'⟩ | ⟨names, names', ht, ht', hperm⟩ := h.list_perm dir
  · rw [ht, ht']
  · rw [ht, ht', h.isFile_eq]
    exact congrArg Except.ok (sortNames_eq_of_perm (hperm.filter _))

theorem directoryNames_eq (dir : Path) : t'.directoryNames dir = t.directoryNames dir := by
  unfold directoryNames
  rw [h.isDirectory_eq]
  obtain ⟨e, ht, ht'⟩ | ⟨names, names', ht, ht', hperm⟩ := h.list_perm dir
  · rw [ht, ht']
  · rw [ht, ht']
    dsimp only
    rw [sortNames_eq_of_perm (hperm.filter _)]

theorem documentsIn_eq (dir : Path) : t'.documentsIn dir = t.documentsIn dir := by
  have hread : ∀ names, t'.readDocuments dir names = t.readDocuments dir names := by
    intro names
    induction names with
    | nil => rfl
    | cons name names ih => rw [readDocuments, readDocuments, h.readText_eq, ih]
  unfold documentsIn
  rw [h.sourceNames_eq]
  simp only [hread]

theorem modulesIn_eq (root : Path) (moduleName : String → String) :
    t'.modulesIn root moduleName = t.modulesIn root moduleName := by
  have hread : ∀ dir names,
      t'.readModules dir moduleName names = t.readModules dir moduleName names := by
    intro dir names
    induction names with
    | nil => rfl
    | cons name names ih => rw [readModules, readModules, h.documentsIn_eq, ih]
  unfold modulesIn
  simp only [h.directoryNames_eq, hread]

theorem loadRoot?_eq : t'.loadRoot? = t.loadRoot? := by
  funext root
  have hbuild : t'.loadBuild root = t.loadBuild root := by
    unfold loadBuild
    rw [h.readText_eq, h.documentsIn_eq]
    simp only [h.modulesIn_eq]
  have hbala : t'.loadBala root = t.loadBala root := by
    unfold loadBala
    rw [h.readText_eq, h.modulesIn_eq]
  unfold loadRoot? isBalaRoot
  rw [h.isFile_eq, h.isDirectory_eq, hbuild, hbala]

theorem load_eq (p : Path) : t'.load p = t.load p := by
  have hnearest : ∀ dirs, t'.loadNearest? dirs = t.loadNearest? dirs := by
    intro dirs
    induction dirs with
    | nil => rfl
    | cons dir dirs ih => rw [loadNearest?, loadNearest?, h.loadRoot?_eq, ih]
  unfold load loadFile
  rw [h.isDirectory_eq, h.loadRoot?_eq, h.readText_eq]
  simp only [hnearest]

/-! ### Finding packages -/

theorem latestVersion?_eq (dir : Path) : t'.latestVersion? dir = t.latestVersion? dir := by
  unfold latestVersion?
  rw [h.isDirectory_eq]
  dsimp only
  have hperm := ((h.listed_perm dir).filter fun n => t.isDirectory (dir.child n)).filterMap
    fun n => (Version.parse? n).map fun v => (v, n)
  refine congrArg (Option.map Prod.snd) (newest?_eq_of_perm hperm fun x hx y hy heq => ?_)
  -- a name is determined by the version that it is read as
  obtain ⟨n, -, hn⟩ := List.mem_filterMap.1 hx
  obtain ⟨m, -, hm⟩ := List.mem_filterMap.1 hy
  obtain ⟨v, hv, rfl⟩ := Option.map_eq_some_iff.1 hn
  obtain ⟨w, hw, rfl⟩ := Option.map_eq_some_iff.1 hm
  obtain rfl : v = w := heq
  rw [Version.parse?_inj hv hw]

theorem platformDirectory?_eq (dir : Path) :
    t'.platformDirectory? dir = t.platformDirectory? dir := by
  have hmetadata : t'.hasMetadata = t.hasMetadata :=
    funext fun dir => by rw [hasMetadata, hasMetadata, h.isFile_eq]
  unfold platformDirectory?
  rw [hmetadata, sortNames_eq_of_perm ((h.listed_perm dir).filter _)]

theorem resolve?_eq (repositories : List Path) :
    t'.resolve? repositories = t.resolve? repositories := by
  funext p
  have hresolve : t'.resolveIn? p = t.resolveIn? p := by
    funext repository
    unfold resolveIn?
    rw [h.isDirectory_eq]
    simp only [h.latestVersion?_eq, h.platformDirectory?_eq]
  rw [resolve?, resolve?, hresolve]

/-! ### Answering -/

theorem connectorsAround_eq (environment : Environment) :
    Surroundings.connectors ⟨t', environment⟩ = Surroundings.connectors ⟨t, environment⟩ := by
  funext path detail
  unfold Surroundings.connectors
  dsimp only
  rw [h.load_eq]

theorem askRegistry_eq {α : Type} (s : Service) (environment : Environment)
    (question : Registry → Exchange (Except RegistryError α)) :
    s.askRegistry ⟨t', environment⟩ question = s.askRegistry ⟨t, environment⟩ question := by
  have hsettings : ∀ path, t'.loadSettings path = t.loadSettings path := by
    intro path
    unfold loadSettings exists?
    rw [h.find_eq, h.readText_eq]
  unfold Service.askRegistry Service.registry
  dsimp only
  rw [hsettings]

theorem list_eq (s : Service) (environment : Environment) (request : ListRequest) :
    s.list ⟨t', environment⟩ request = s.list ⟨t, environment⟩ request := by
  unfold Service.list
  rw [h.askRegistry_eq, h.connectorsAround_eq]

theorem lookup_eq (s : Service) (environment : Environment) (request : LookupRequest) :
    s.lookup ⟨t', environment⟩ request = s.lookup ⟨t, environment⟩ request := by
  have hpackage : s.packageConnectors ⟨t', environment⟩ request
      = s.packageConnectors ⟨t, environment⟩ request := by
    unfold Service.packageConnectors balaPath
    dsimp only
    rw [h.resolve?_eq, h.connectorsAround_eq]
  have htry : ∀ strategy, s.tryStrategy ⟨t', environment⟩ request strategy
      = s.tryStrategy ⟨t, environment⟩ request strategy := by
    intro strategy
    cases strategy <;> unfold Service.tryStrategy <;> dsimp only
    · rw [h.askRegistry_eq]
    · rw [h.askRegistry_eq]
    · rw [h.connectorsAround_eq]
    · rw [hpackage]
  have hlookup : ∀ strategies, s.lookupBy ⟨t', environment⟩ request strategies
      = s.lookupBy ⟨t, environment⟩ request strategies := by
    intro strategies
    induction strategies with
    | nil => rfl
    | cons strategy rest ih => rw [Service.lookupBy, Service.lookupBy, htry, ih]
  exact hlookup _

end Reordered

/-- In what order directories list their names is irrelevant: to the project or the error that a path
is loaded as, to the packages that coordinates lead to, and to the answers of any service in any
environment, with any network, which is left in the same state. -/
theorem reordered_irrelevant {t t' : FileTree} (h : t.Reordered t') :
    (∀ p, t'.load p = t.load p) ∧
    (∀ repositories ps, t'.resolveAll repositories ps = t.resolveAll repositories ps) ∧
    ∀ (s : Service) (environment : Environment),
      (∀ request n, s.list ⟨t', environment⟩ request n = s.list ⟨t, environment⟩ request n) ∧
      ∀ request n, s.lookup ⟨t', environment⟩ request n = s.lookup ⟨t, environment⟩ request n := by
  refine ⟨h.load_eq, fun repositories ps => ?_, fun s environment => ⟨fun request n => ?_,
    fun request n => ?_⟩⟩
  · rw [resolveAll, resolveAll, h.resolve?_eq]
  · rw [h.list_eq]
  · rw [h.lookup_eq]

/-- The newest version is found whichever of two is listed first. -/
theorem reordered_two_versions :
    let t : FileTree := ⟨twoVersions.current, twoVersions.entries.reverse⟩
    let dir := Path.ofString "repo/wso2/http"
    twoVersions.Reordered t ∧
      twoVersions.list dir = .ok ["1.9.0", "1.10.0"] ∧ t.list dir = .ok ["1.10.0", "1.9.0"] ∧
      t.resolveAll [Path.ofString "repo"] [⟨"wso2", "http", ""⟩]
        = [some (Path.ofString "repo/wso2/http/1.10.0/java17")] := by
  intro t dir
  have hdistinct : twoVersions.Distinct := (distinct_empty.writeFile _ _).writeFile _ _
  have hreordered : twoVersions.Reordered t :=
    reordered_of_perm hdistinct (List.reverse_perm _).symm
  refine ⟨hreordered, by decide +kernel, by decide +kernel, ?_⟩
  rw [(reordered_irrelevant hreordered).2.1]
  decide +kernel

end FileTree

end ConnectorCatalog
