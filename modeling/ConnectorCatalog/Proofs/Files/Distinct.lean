import ConnectorCatalog.Proofs.Files.WellFormed
import Mathlib.Data.List.Nodup

/-!
# Trees in which nothing stands twice

Where no place has two entries, no name comes twice in what a directory lists. Trees stay so as files
are written and removed.
-/

namespace ConnectorCatalog.FileTree

variable {t : FileTree}

/-- No place has two entries. -/
def Distinct (t : FileTree) : Prop := (t.entries.map Prod.fst).Nodup

theorem Distinct.namesBelow (h : t.Distinct) (place : List String) : (t.namesBelow place).Nodup := by
  have hplaces : ((t.namesBelow place).map fun name => place ++ [name]).Sublist
      (t.entries.map Prod.fst) := by
    unfold FileTree.namesBelow
    induction t.entries with
    | nil => exact List.Sublist.refl _
    | cons e entries ih =>
      obtain ⟨names, node⟩ := e
      rw [List.filterMap_cons]
      split
      · exact ih.cons _
      · rename_i name hname
        dsimp only at hname
        split at hname
        · rename_i last hlast
          split_ifs at hname with hfront
          cases hname
          obtain ⟨front, rfl⟩ := List.getLast?_eq_some_iff.1 hlast
          rw [List.dropLast_concat] at hfront
          subst hfront
          exact ih.cons_cons _
        · cases hname
  exact (hplaces.nodup h).of_map _

theorem distinct_empty : empty.Distinct := List.nodup_nil

theorem Distinct.put (h : t.Distinct) (place : List String) (node : FileNode) :
    (t.put place node).Distinct := by
  unfold Distinct FileTree.put
  rw [List.map_append, List.map_singleton, ← List.concat_eq_append, List.nodup_concat]
  refine ⟨fun hmem => ?_, (List.filter_sublist.map _).nodup h⟩
  obtain ⟨e, he, heq⟩ := List.mem_map.1 hmem
  have := (List.mem_filter.1 he).2
  simp [heq] at this

theorem Distinct.makeDirectories (h : t.Distinct) (place : List String) :
    (t.makeDirectories place).Distinct := by
  unfold FileTree.makeDirectories
  refine List.foldlRecOn (motive := FileTree.Distinct) _ _ h fun t' ht' n _ => ?_
  unfold makeDirectory
  split
  · exact ht'
  · exact ht'.put _ _

theorem Distinct.writeFile (h : t.Distinct) (place : List String) (content : FileContent) :
    (t.writeFile place content).Distinct :=
  (h.makeDirectories _).put _ _

theorem Distinct.remove (h : t.Distinct) (place : List String) : (t.remove place).Distinct :=
  (List.filter_sublist.map _).nodup h

end ConnectorCatalog.FileTree
