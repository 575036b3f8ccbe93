import ConnectorCatalog.Proofs.Files.Ancestors

/-!
# A dot in front of a path

A relative path leads to the same with `./` before it (`find_dotted`), the empty path excepted, which
leads nowhere while a dot leads to the current directory. The directories above the dotted path are
those above the path, each dotted, and behind them the empty path once more
(`properAncestors_dotted`).
-/

namespace ConnectorCatalog

namespace Path

/-- A relative path with `./` before it. That of the empty path is a dot alone. -/
def dotted (p : Path) : Path := if p = [] then ['.'] else '.' :: '/' :: p

/-- The path begins neither with a slash nor with a dot. -/
def IsUndotted (p : Path) : Prop := ∀ c ∈ p.head?, c ≠ '/' ∧ c ≠ '.'

theorem dotted_of_ne_nil {p : Path} (h : p ≠ []) : p.dotted = '.' :: '/' :: p := if_neg h

theorem isAbsolute_dotted (p : Path) : p.dotted.isAbsolute = false := by
  unfold dotted
  split_ifs <;> rfl

theorem IsUndotted.isAbsolute {p : Path} (h : p.IsUndotted) : p.isAbsolute = false := by
  unfold Path.isAbsolute
  cases hp : p.head? with
  | none => rfl
  | some c => simpa using (h c hp).1

/-- The dot stays where it is when a name is put below a path. -/
theorem dotted_child {name : String} (h : isEntryName name = true) (dir : Path) :
    dir.dotted.child name = (dir.child name).dotted := by
  rw [dotted_of_ne_nil (child_ne_nil h dir)]
  unfold child join
  rw [isAbsolute_name h]
  cases dir with
  | nil => rfl
  | cons c dir =>
    rw [dotted_of_ne_nil (List.cons_ne_nil c dir), List.getLast?_cons_cons, List.getLast?_cons_cons]
    simp only [Bool.false_eq_true, if_false, List.isEmpty_cons]
    split_ifs <;> rfl

/-! ### Steps -/

theorem stepsFrom_append (back before piece : List Char) (isFirst : Bool) (r : List Char) :
    stepsFrom (before ++ back) piece isFirst r =
      (stepsFrom before piece isFirst r).map fun s => ⟨s.name, back.reverse ++ s.upTo⟩ := by
  have hstep : ∀ before piece isFirst, (step? (before ++ back) piece isFirst).toList =
      (step? before piece isFirst).toList.map fun s => ⟨s.name, back.reverse ++ s.upTo⟩ := by
    intro before piece isFirst
    unfold step?
    split_ifs
    · rfl
    · simp
  induction r generalizing before piece isFirst with
  | nil => rw [stepsFrom, stepsFrom, hstep]
  | cons c r ih =>
    rw [stepsFrom, stepsFrom, ← List.cons_append, ih, ih, hstep]
    split_ifs
    · rw [List.map_append]
    · rfl

/-- Whether a piece is the first of a path matters for a dot only. -/
theorem stepsFrom_isFirst {before piece : List Char} {c : Char} (hpiece : piece.getLast? = some c)
    (hc : c ≠ '.') (r : List Char) :
    stepsFrom before piece false r = stepsFrom before piece true r := by
  have hstep : ∀ {before piece : List Char}, piece.getLast? = some c →
      step? before piece false = step? before piece true := by
    intro before piece hpiece
    have hdot : piece ≠ ['.'] := by
      rintro rfl
      exact hc (Option.some.inj hpiece).symm
    simp [step?, hdot]
  induction r generalizing before piece with
  | nil => rw [stepsFrom, stepsFrom, hstep hpiece]
  | cons d r ih =>
    rw [stepsFrom, stepsFrom, hstep hpiece]
    split_ifs
    · rfl
    · refine ih ?_
      rw [List.getLast?_cons, hpiece]
      rfl

theorem upTo_ne_nil {p : Path} {s : Step} (h : s ∈ p.steps) : s.upTo ≠ [] := by
  obtain ⟨front, back, hsteps⟩ := List.append_of_mem h
  intro hnil
  have hupTo := (steps_upTo hsteps).1
  rw [hnil] at hupTo
  exact absurd hupTo (by simp [steps, stepsFrom, step?])

/-- The steps of a dotted path are the dot and then those of the path, each from the dot. -/
theorem steps_dotted {p : Path} (hne : p ≠ []) (h : p.IsUndotted) :
    p.steps ≠ [] ∧
      p.dotted.steps = ⟨['.'], ['.']⟩ :: p.steps.map fun s => ⟨s.name, s.upTo.dotted⟩ := by
  obtain ⟨c, r, rfl⟩ := List.exists_cons_of_ne_nil hne
  obtain ⟨hslash, hdot⟩ := h c rfl
  have hsteps : steps (c :: r) = stepsFrom [] [] true (c :: r) := by
    rw [steps]
    rintro r' ⟨⟩
    exact hslash rfl
  have hbehind : stepsFrom ['/', '.'] [] false (c :: r)
      = (steps (c :: r)).map fun s => ⟨s.name, '.' :: '/' :: s.upTo⟩ := by
    rw [hsteps, stepsFrom, stepsFrom, if_neg hslash, if_neg hslash,
      stepsFrom_isFirst (c := c) rfl hdot]
    exact stepsFrom_append ['/', '.'] [c] [c] true r
  have hfirst : steps (c :: r) ≠ [] := by
    rw [hsteps, stepsFrom, if_neg hslash]
    -- the piece that the path begins with names a step, wherever it ends
    have hsome : ∀ (r before piece : List Char), piece ≠ [] →
        stepsFrom before piece true r ≠ [] := by
      intro r
      induction r with
      | nil =>
        intro before piece hpiece
        simp [stepsFrom, step?, hpiece]
      | cons d r ih =>
        intro before piece hpiece
        rw [stepsFrom]
        split_ifs
        · simp [step?, hpiece]
        · exact ih _ _ (List.cons_ne_nil d piece)
    exact hsome r [c] [c] (List.cons_ne_nil c [])
  refine ⟨hfirst, ?_⟩
  have hdotted : steps ('.' :: '/' :: c :: r)
      = ⟨['.'], ['.']⟩ :: stepsFrom ['/', '.'] [] false (c :: r) := rfl
  rw [dotted_of_ne_nil hne, hdotted, hbehind]
  refine congrArg _ (List.map_congr_left fun s hs => ?_)
  rw [dotted_of_ne_nil (upTo_ne_nil hs)]

/-- The directories above a dotted path: those above the path, and the empty path again. -/
theorem properAncestors_dotted {p : Path} (hne : p ≠ []) (h : p.IsUndotted) :
    ∃ above : List Path, (∀ dir ∈ above, dir ≠ []) ∧ p.properAncestors = above ++ [[]] ∧
      p.dotted.properAncestors = above.map dotted ++ [['.'], []] := by
  obtain ⟨hsteps, hdotted⟩ := steps_dotted hne h
  refine ⟨(p.steps.dropLast.map Step.upTo).reverse, fun dir hdir => ?_, ?_, ?_⟩
  · obtain ⟨s, hs, rfl⟩ := List.mem_map.1 (List.mem_reverse.1 hdir)
    exact upTo_ne_nil (List.dropLast_subset _ hs)
  · simp [properAncestors, hsteps, h.isAbsolute]
  · have hdrop : (⟨['.'], ['.']⟩ :: p.steps.map fun s => ⟨s.name, s.upTo.dotted⟩ : List Step).dropLast
        = ⟨['.'], ['.']⟩ :: (p.steps.dropLast.map fun s => ⟨s.name, s.upTo.dotted⟩) := by
      rw [List.dropLast_cons_of_ne_nil (by simpa using hsteps), List.map_dropLast]
    unfold properAncestors
    dsimp only
    rw [hdotted, hdrop, isAbsolute_dotted]
    simp [Function.comp_def]

theorem fileName?_dotted {p : Path} (h : p.IsUndotted) : p.dotted.fileName? = p.fileName? := by
  by_cases hne : p = []
  · subst hne
    decide
  · obtain ⟨hsteps, hdotted⟩ := steps_dotted hne h
    obtain ⟨front, last, hlast⟩ := List.eq_nil_or_concat p.steps |>.resolve_left hsteps
    unfold fileName?
    rw [hdotted, hlast, List.concat_eq_append, List.map_append, ← List.cons_append,
      List.map_singleton, List.getLast?_concat, List.getLast?_concat]

/-- The directories above a path begin as it does. -/
theorem IsUndotted.of_mem_ancestors {p a : Path} (h : p.IsUndotted) (ha : a ∈ p.ancestors) :
    a.IsUndotted := by
  rcases mem_ancestors ha with rfl | ⟨rfl, -⟩ | ⟨rfl, habsolute⟩ | ⟨-, r, hp⟩
  · exact h
  · exact nofun
  · rw [h.isAbsolute] at habsolute
    cases habsolute
  · cases a with
    | nil => exact nofun
    | cons c a =>
      rintro d ⟨⟩
      exact h c (by rw [hp]; rfl)

end Path

namespace FileTree

variable {t : FileTree}

/-- A relative path leads to the same with a dot in front of it. -/
theorem find_dotted {p : Path} (hne : p ≠ []) (h : p.isAbsolute = false) :
    t.find p.dotted = t.find p := by
  have hcurrent : t.node? t.current = some .directory := by simp [node?]
  have hfollow : ∀ cs, t.followAll t.current (['.'] :: cs) = t.followAll t.current cs := by
    intro cs
    have hdot : t.follow t.current ['.'] = .ok t.current := by simp [follow, hcurrent]
    rw [followAll, hdot]
    rfl
  have hpieces : cutAll (· == '/') ('.' :: '/' :: p) = ['.'] :: cutAll (· == '/') p := by
    simp [cutAll]
  rw [Path.dotted_of_ne_nil hne]
  have hrelative : Path.isAbsolute ('.' :: '/' :: p) = false := rfl
  unfold find start
  rw [hpieces, h, hrelative, if_neg Bool.false_ne_true, hfollow]
  simp [hne]

theorem isFile_dotted {p : Path} (hne : p ≠ []) (h : p.isAbsolute = false) :
    t.isFile p.dotted = t.isFile p := by
  rw [isFile, isFile, find_dotted hne h]

theorem isDirectory_dotted {p : Path} (hne : p ≠ []) (h : p.isAbsolute = false) :
    t.isDirectory p.dotted = t.isDirectory p := by
  rw [isDirectory, isDirectory, find_dotted hne h]

theorem readText_dotted {p : Path} (hne : p ≠ []) (h : p.isAbsolute = false) :
    t.readText p.dotted = t.readText p := by
  rw [readText, readText, find_dotted hne h]

theorem list_dotted {p : Path} (hne : p ≠ []) (h : p.isAbsolute = false) :
    t.list p.dotted = t.list p := by
  rw [list, list, find_dotted hne h]

end FileTree

end ConnectorCatalog
