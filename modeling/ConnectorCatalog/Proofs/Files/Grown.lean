import ConnectorCatalog.Proofs.Basic
import ConnectorCatalog.Proofs.Files.Place

/-!
# Trees that grow

Where files and directories are added to a tree and none are removed or changed, a path that led
somewhere leads to the same still (`Grown.find`). A tree grows when directories are made in it, and
when a file is written where nothing stood.
-/

namespace ConnectorCatalog.FileTree

variable {t t' : FileTree}

/-- What stands somewhere in the tree `t` stands there in `t'`. -/
structure Grown (t t' : FileTree) : Prop where
  current : t'.current = t.current
  node : ∀ place node, t.node? place = some node → t'.node? place = some node

namespace Grown

theorem refl (t : FileTree) : t.Grown t := ⟨rfl, fun _ _ h => h⟩

theorem trans {t'' : FileTree} (h : t.Grown t') (h' : t'.Grown t'') : t.Grown t'' where
  current := h'.current.trans h.current
  node := fun place node hnode => h'.node place node (h.node place node hnode)

variable (h : t.Grown t')

include h

theorem follow {place next : List String} {component : List Char}
    (hfollow : t.follow place component = .ok next) : t'.follow place component = .ok next := by
  unfold FileTree.follow at hfollow ⊢
  split at hfollow
  · cases hfollow
  · cases hfollow
  · rw [h.node place .directory ‹_›]
    exact hfollow

theorem followAll {place last : List String} {components : List (List Char)}
    (hfollow : t.followAll place components = .ok last) :
    t'.followAll place components = .ok last := by
  induction components generalizing place with
  | nil => exact hfollow
  | cons c components ih =>
    obtain ⟨next, hc, hrest⟩ := bind_eq_ok.1 hfollow
    exact bind_eq_ok.2 ⟨next, h.follow hc, ih hrest⟩

/-- A path leads to what it led to before. -/
theorem find {p : Path} {place : List String} {node : FileNode}
    (hfind : t.find p = .ok (place, node)) : t'.find p = .ok (place, node) := by
  obtain ⟨hchars, hne, hplace, hnode⟩ := find_eq_ok.1 hfind
  refine find_eq_ok.2 ⟨hchars, hne, ?_, h.node place node hnode⟩
  unfold FileTree.place start at hplace ⊢
  rw [h.current]
  exact h.followAll hplace

theorem isFile {p : Path} (hfile : t.isFile p = true) : t'.isFile p = true := by
  obtain ⟨place, content, hfind⟩ := isFile_eq_true.1 hfile
  exact isFile_eq_true.2 ⟨place, content, h.find hfind⟩

theorem isDirectory {p : Path} (hdirectory : t.isDirectory p = true) :
    t'.isDirectory p = true := by
  obtain ⟨place, hfind⟩ := isDirectory_eq_true.1 hdirectory
  exact isDirectory_eq_true.2 ⟨place, h.find hfind⟩

end Grown

/-! ### What lets a tree grow -/

theorem node?_put_of_ne {place q : List String} (h : q ≠ place) (node : FileNode) :
    (t.put place node).node? q = t.node? q := by
  have hne : (q != place) = true := bne_iff_ne.2 h
  unfold node? put
  dsimp only
  rw [List.lookup_append, lookup_filter (P := (· != place)) hne, lookup_cons_eq, if_neg h,
    List.lookup_nil, Option.or_none]

theorem grown_put {place : List String} (h : t.node? place = none) (node : FileNode) :
    t.Grown (t.put place node) where
  current := rfl
  node := fun q old hold => by
    have hq : q ≠ place := fun heq => by simp [heq, h] at hold
    rw [node?_put_of_ne hq, hold]

theorem grown_makeDirectories (t : FileTree) (place : List String) :
    t.Grown (t.makeDirectories place) := by
  unfold makeDirectories
  refine List.foldlRecOn _ _ (Grown.refl t) fun t' ht' n _ => ht'.trans ?_
  unfold makeDirectory
  split_ifs with hthere
  · exact Grown.refl t'
  · exact grown_put (Option.not_isSome_iff_eq_none.1 hthere) _

/-- Making directories puts nothing anywhere but on the way to the last of them. -/
theorem node?_makeDirectories {place q : List String} (h : ¬ q <+: place) :
    (t.makeDirectories place).node? q = t.node? q := by
  unfold makeDirectories
  refine List.foldlRecOn (motive := fun t' : FileTree => t'.node? q = t.node? q) _ _ rfl
    fun t' ht' n _ => ?_
  unfold makeDirectory
  split_ifs
  · exact ht'
  · have hq : q ≠ place.take n := fun heq => h (by rw [heq]; exact List.take_prefix n place)
    rw [node?_put_of_ne hq, ht']

theorem grown_writeFile {place : List String} (h : t.node? place = none) (content : FileContent) :
    t.Grown (t.writeFile place content) := by
  have hne : place ≠ [] := fun hnil => by simp [hnil, node?] at h
  have hlonger : ¬ place <+: place.dropLast := fun hprefix => by
    have hlength := hprefix.length_le
    have hpositive := List.length_pos_of_ne_nil hne
    rw [List.length_dropLast] at hlength
    omega
  exact (grown_makeDirectories t place.dropLast).trans
    (grown_put ((node?_makeDirectories hlonger).trans h) _)

end ConnectorCatalog.FileTree
