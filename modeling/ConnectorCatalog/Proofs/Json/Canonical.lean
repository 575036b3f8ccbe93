import ConnectorCatalog.Json.Basic
import Mathlib.Data.List.Nodup
import Mathlib.Data.List.Perm.Basic
import Mathlib.Data.String.Basic

/-!
# Canonical values

Sorting the members of an object keeps every member whose key comes once, and what is sorted stays as
it is. So canonical values are those that `canonical` does not change (`canonical_canonical`).
-/

namespace ConnectorCatalog

namespace Json

@[simp]
theorem canonicalElements_eq : ∀ xs : List Json, canonicalElements xs = xs.map canonical
  | [] => rfl
  | x :: xs => by rw [canonicalElements, canonicalElements_eq xs, List.map_cons]

@[simp]
theorem canonicalMembers_eq :
    ∀ ms : List (String × Json), canonicalMembers ms = ms.map fun m => (m.1, m.2.canonical)
  | [] => rfl
  | (k, x) :: ms => by rw [canonicalMembers, canonicalMembers_eq ms, List.map_cons]

/-! ## One member put in -/

theorem mem_of_mem_putMember {k : String} {x : Json} {m : String × Json} :
    ∀ {ms : List (String × Json)}, m ∈ putMember k x ms → m = (k, x) ∨ m ∈ ms
  | [], h => by simpa [putMember] using h
  | (k', x') :: ms, h => by
    rw [putMember] at h
    split_ifs at h
    · simpa using h
    · rcases List.mem_cons.1 h with h | h <;> simp [h]
    · rcases List.mem_cons.1 h with h | h
      · simp [h]
      · rcases mem_of_mem_putMember h with h | h <;> simp [h]

/-- The keys ascend, so each comes once. -/
def Ascending (ms : List (String × Json)) : Prop := ms.Pairwise fun m m' => m.1 < m'.1

theorem ascending_putMember {k : String} {x : Json} :
    ∀ {ms : List (String × Json)}, Ascending ms → Ascending (putMember k x ms)
  | [], _ => List.pairwise_singleton ..
  | (k', x') :: ms, h => by
    obtain ⟨hfirst, hms⟩ := List.pairwise_cons.1 h
    rw [putMember]
    split_ifs with hlt heq
    · refine List.pairwise_cons.2 ⟨fun m hm => ?_, h⟩
      rcases List.mem_cons.1 hm with rfl | hm
      · exact hlt
      · exact hlt.trans (hfirst m hm)
    · exact List.pairwise_cons.2 ⟨heq ▸ hfirst, hms⟩
    · refine List.pairwise_cons.2 ⟨fun m hm => ?_, ascending_putMember hms⟩
      rcases mem_of_mem_putMember hm with rfl | hm
      · exact lt_of_le_of_ne (le_of_not_gt hlt) fun h => heq h.symm
      · exact hfirst m hm

theorem putMember_perm {k : String} {x : Json} :
    ∀ {ms : List (String × Json)}, k ∉ ms.map Prod.fst → (putMember k x ms).Perm ((k, x) :: ms)
  | [], _ => .refl _
  | (k', x') :: ms, h => by
    simp only [List.map_cons, List.mem_cons, not_or] at h
    rw [putMember, if_neg h.1]
    split_ifs
    · exact .refl _
    · exact ((putMember_perm h.2).cons _).trans (.swap ..)

/-- A member that is left out does not matter. -/
theorem filter_putMember {P : String → Bool} {k : String} (h : P k = false) {x : Json} :
    ∀ {ms : List (String × Json)},
      ((putMember k x ms).filter fun m => P m.1) = ms.filter fun m => P m.1
  | [] => by simp [putMember, h]
  | (k', x') :: ms => by
    rw [putMember]
    split_ifs with hlt heq
    · simp [h]
    · simp [h, ← heq]
    · simp [List.filter_cons, filter_putMember h]

/-! ## All members -/

theorem foldl_putMember_perm {P : String → Bool} : ∀ (ms sorted : List (String × Json)),
    (((sorted ++ ms).filter fun m => P m.1).map Prod.fst).Nodup →
    ((ms.foldl (fun sorted m => putMember m.1 m.2 sorted) sorted).filter fun m => P m.1).Perm
      ((sorted ++ ms).filter fun m => P m.1)
  | [], sorted, _ => by simp
  | (k, x) :: ms, sorted, h => by
    have hstep : ((putMember k x sorted ++ ms).filter fun m => P m.1).Perm
        ((sorted ++ (k, x) :: ms).filter fun m => P m.1) := by
      cases hk : P k with
      | false => simp [filter_putMember hk, hk]
      | true =>
        have hnew : k ∉ sorted.map Prod.fst := by
          intro hmem
          obtain ⟨m, hm, rfl⟩ := List.mem_map.1 hmem
          simp only [List.filter_append, List.map_append, List.filter_cons, hk, if_true,
            List.map_cons] at h
          refine (List.nodup_append.1 h).2.2 m.1 (List.mem_map_of_mem ?_) m.1 (by simp) rfl
          simp [hm, hk]
        exact (((putMember_perm hnew).append_right ms).trans List.perm_middle.symm).filter _
    exact (foldl_putMember_perm ms _ ((hstep.map _).nodup_iff.2 h)).trans hstep

/-- Sorting permutes the members with certain keys, if each of these comes once. -/
theorem filter_sortMembers_perm {P : String → Bool} {ms : List (String × Json)}
    (h : ((ms.filter fun m => P m.1).map Prod.fst).Nodup) :
    ((sortMembers ms).filter fun m => P m.1).Perm (ms.filter fun m => P m.1) :=
  foldl_putMember_perm ms [] h

theorem mem_of_mem_foldl {m : String × Json} : ∀ {ms sorted : List (String × Json)},
    m ∈ ms.foldl (fun sorted m => putMember m.1 m.2 sorted) sorted → m ∈ sorted ∨ m ∈ ms
  | [], _, h => .inl h
  | (k, x) :: ms, sorted, h => by
    rw [List.foldl_cons] at h
    rcases mem_of_mem_foldl h with h | h
    · rcases mem_of_mem_putMember h with rfl | h <;> simp [*]
    · simp [h]

theorem mem_of_mem_sortMembers {m : String × Json} {ms : List (String × Json)}
    (h : m ∈ sortMembers ms) : m ∈ ms := by
  simpa using mem_of_mem_foldl h

theorem ascending_sortMembers (ms : List (String × Json)) : Ascending (sortMembers ms) :=
  List.foldlRecOn ms _ .nil fun _ h _ _ => ascending_putMember h

theorem nodup_of_ascending {ms : List (String × Json)} (h : Ascending ms) :
    (ms.map Prod.fst).Nodup :=
  List.pairwise_map.2 (h.imp fun hlt => hlt.ne)

theorem sortMembers_of_ascending {ms : List (String × Json)} (h : Ascending ms) :
    sortMembers ms = ms := by
  have hperm : (sortMembers ms).Perm ms := by
    simpa using filter_sortMembers_perm (P := fun _ => true) (by simpa using nodup_of_ascending h)
  exact hperm.eq_of_pairwise (fun _ _ _ _ hlt hgt => absurd hgt hlt.not_gt)
    (ascending_sortMembers ms) h

/-! ## Canonical values -/

mutual

/-- A canonical value is its own canonical form. -/
theorem canonical_canonical : ∀ j : Json, j.canonical.canonical = j.canonical
  | array xs => by
    have hxs : (canonicalElements xs).map canonical = canonicalElements xs :=
      (List.map_congr_left (canonical_of_mem_elements xs)).trans (List.map_id _)
    rw [canonical, canonical, canonicalElements_eq (canonicalElements xs), hxs]
  | object ms => by
    have hms : (sortMembers (canonicalMembers ms)).map (fun m => (m.1, m.2.canonical))
        = sortMembers (canonicalMembers ms) := by
      refine (List.map_congr_left fun m hm => ?_).trans (List.map_id _)
      rw [canonical_of_mem_members ms m (mem_of_mem_sortMembers hm)]
      rfl
    rw [canonical, canonical, canonicalMembers_eq (sortMembers _), hms,
      sortMembers_of_ascending (ascending_sortMembers _)]
  | null => rfl
  | bool _ => rfl
  | number _ => rfl
  | string _ => rfl

theorem canonical_of_mem_elements :
    ∀ xs : List Json, ∀ x ∈ canonicalElements xs, x.canonical = x
  | [], x, h => by simp [canonicalElements] at h
  | y :: xs, x, h => by
    rw [canonicalElements, List.mem_cons] at h
    rcases h with rfl | h
    · exact canonical_canonical y
    · exact canonical_of_mem_elements xs x h

theorem canonical_of_mem_members :
    ∀ ms : List (String × Json), ∀ m ∈ canonicalMembers ms, m.2.canonical = m.2
  | [], m, h => by simp [canonicalMembers] at h
  | (k, y) :: ms, m, h => by
    rw [canonicalMembers, List.mem_cons] at h
    rcases h with rfl | h
    · exact canonical_canonical y
    · exact canonical_of_mem_members ms m h

end

end Json

end ConnectorCatalog
