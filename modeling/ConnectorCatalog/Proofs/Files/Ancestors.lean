import ConnectorCatalog.Proofs.Files.Place

/-!
# The ancestors of a path

A path up to one of its steps has the steps up to that one (`steps_upTo`), so the ancestors of a path
are its parent and the ancestors of its parent (`properAncestors_eq`). A path without a parent lies in
the current directory, which can be written as the empty path and as a dot (`find_child_dot`).
-/

namespace ConnectorCatalog

namespace Path

theorem stepsFrom_upTo {before piece r : List Char} {isFirst : Bool} {front back : List Step}
    {st : Step} (h : stepsFrom before piece isFirst r = front ++ st :: back) :
    ∃ u v, st.upTo = before.reverse ++ u ∧ r = u ++ v ∧
      stepsFrom before piece isFirst u = front ++ [st] := by
  induction r generalizing before piece isFirst front with
  | nil =>
    have hst : st ∈ (step? before piece isFirst).toList := by
      rw [stepsFrom] at h
      simp [h]
    refine ⟨[], [], by rw [upTo_of_mem_step? hst, List.append_nil], rfl, ?_⟩
    rw [stepsFrom] at h ⊢
    cases hstep : step? before piece isFirst with
    | none => simp [hstep] at hst
    | some s =>
      rw [hstep, Option.toList_some] at h
      obtain ⟨rfl, hcons⟩ | ⟨_, rfl, hnil⟩ := List.cons_eq_append_iff.1 h
      · cases hcons
        rfl
      · simp at hnil
  | cons c r ih =>
    rw [stepsFrom] at h
    split_ifs at h with hc
    · subst hc
      cases hstep : step? before piece isFirst with
      | none =>
        rw [hstep, Option.toList_none, List.nil_append] at h
        obtain ⟨u, v, hup, rfl, hsteps⟩ := ih h
        refine ⟨'/' :: u, v, by simpa using hup, rfl, ?_⟩
        rw [stepsFrom, if_pos rfl, hstep, hsteps]
        rfl
      | some s =>
        rw [hstep, Option.toList_some, List.singleton_append] at h
        obtain ⟨rfl, hcons⟩ | ⟨front, rfl, hrest⟩ := List.cons_eq_append_iff.1 h
        -- the step that ends here, or a later one
        · cases hcons
          have hst : st ∈ (step? before piece isFirst).toList := by simp [hstep]
          refine ⟨[], '/' :: r, by rw [upTo_of_mem_step? hst, List.append_nil], rfl, ?_⟩
          rw [stepsFrom, hstep]
          rfl
        · obtain ⟨u, v, hup, rfl, hsteps⟩ := ih hrest
          refine ⟨'/' :: u, v, by simpa using hup, rfl, ?_⟩
          rw [stepsFrom, if_pos rfl, hstep, hsteps]
          rfl
    · obtain ⟨u, v, hup, rfl, hsteps⟩ := ih h
      refine ⟨c :: u, v, by simpa using hup, rfl, ?_⟩
      rw [stepsFrom, if_neg hc, hsteps]

/-- A path up to one of its steps has the steps up to that one, and begins as the path does. -/
theorem steps_upTo {p : Path} {front back : List Step} {st : Step}
    (h : p.steps = front ++ st :: back) :
    st.upTo.steps = front ++ [st] ∧ st.upTo.isAbsolute = p.isAbsolute := by
  unfold steps at h
  split at h
  · obtain ⟨rfl, hcons⟩ | ⟨front, rfl, hrest⟩ := List.cons_eq_append_iff.1 h
    · cases hcons
      exact ⟨rfl, rfl⟩
    · obtain ⟨u, v, hup, rfl, hsteps⟩ := stepsFrom_upTo hrest
      rw [hup]
      exact ⟨by rw [List.cons_append, ← hsteps]; rfl, rfl⟩
  · rename_i hrelative
    obtain ⟨u, v, hup, rfl, hsteps⟩ := stepsFrom_upTo h
    rw [List.reverse_nil, List.nil_append] at hup
    rw [hup]
    cases u with
    | nil => exact absurd hsteps.symm (by simp [stepsFrom, step?])
    | cons c u =>
      have hc : c ≠ '/' := fun hc => hrelative (u ++ v) (by rw [hc]; rfl)
      refine ⟨?_, rfl⟩
      rw [steps]
      · exact hsteps
      · rintro r ⟨⟩
        exact hc rfl

/-- The ancestors of a path are its parent, the parent of that, and so on. -/
theorem properAncestors_eq {p parent : Path} (h : p.parent? = some parent) :
    p.properAncestors = parent.ancestors := by
  obtain ⟨above, habove⟩ := List.head?_eq_some_iff.1 h
  rcases List.eq_nil_or_concat p.steps with hnil | ⟨init, last, hinit⟩
  · simp [properAncestors, hnil] at habove
  · rw [List.concat_eq_append] at hinit
    rcases List.eq_nil_or_concat init with rfl | ⟨front, st, rfl⟩
    · have hparent : p.properAncestors = if p.isAbsolute then [] else [[]] := by
        simp [properAncestors, hinit]
      rw [hparent] at habove
      split_ifs at habove with habsolute
      · cases habove
        rw [hparent, if_neg habsolute]
        rfl
    · rw [List.concat_eq_append, List.append_assoc, List.singleton_append] at hinit
      obtain ⟨hsteps, habsolute⟩ := steps_upTo hinit
      have hp : p.properAncestors = st.upTo :: st.upTo.properAncestors := by
        have hfirst : ((front ++ [st, last]).dropLast.map Step.upTo).reverse
            = st.upTo :: ((front ++ [st]).dropLast.map Step.upTo).reverse := by
          rw [List.dropLast_append_of_ne_nil (List.cons_ne_nil st [last]), List.dropLast_concat]
          simp
        have hne : ∀ rest, (front ++ st :: rest).isEmpty = false := by simp
        unfold properAncestors
        dsimp only
        rw [hsteps, habsolute, hinit, hfirst, hne, hne]
        split_ifs <;> rfl
      rw [hp] at habove
      cases habove
      exact hp

/-- The directories around a path, nearest first: those above it, or the current directory if none is
above it. -/
def around (p : Path) : List Path :=
  if p.properAncestors = [] then [ofString "."] else p.properAncestors

end Path

namespace FileTree

variable {t : FileTree}

/-- The current directory has the same under a name, whichever way it is written. -/
theorem find_child_dot {name : String} (h : Path.isEntryName name = true) {place : List String}
    {node : FileNode} : t.find (Path.child [] name) = .ok (place, node) ↔
      t.find ((Path.ofString ".").child name) = .ok (place, node) := by
  have hcurrent : t.node? t.current = some .directory := by simp [node?]
  have hplace : t.place [] = t.place (Path.ofString ".") := by
    simp [FileTree.place, Path.pieces, Path.ofString, cutAll, start, Path.isAbsolute, followAll,
      follow, hcurrent, bind, Except.bind]
  have hchars : (∀ c ∈ Path.child [] name, c.toNat ≠ 0) ↔
      ∀ c ∈ (Path.ofString ".").child name, c.toNat ≠ 0 := by
    have hempty := fun c => Path.mem_child h [] (c := c)
    have hdot := fun c => Path.mem_child h (Path.ofString ".") (c := c)
    constructor
    · intro hc c hmem
      rcases (hdot c).2 hmem with hmem | hmem | rfl
      · rw [List.mem_singleton.1 hmem]
        decide
      · exact hc c ((hempty c).1 (.inr hmem))
      · decide
    · intro hc c hmem
      rcases (hempty c).2 hmem with hmem | hmem | rfl
      · cases hmem
      · exact hc c ((hdot c).1 (.inr hmem))
      · decide
  rw [find_eq_ok, find_eq_ok, hchars, place_child h, place_child h, hplace]
  simp [Path.child_ne_nil h]

end FileTree

end ConnectorCatalog
