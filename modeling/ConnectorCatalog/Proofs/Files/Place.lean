import ConnectorCatalog.Files.Tree
import ConnectorCatalog.Proofs.Cut

/-!
# The place that a path names

A path is followed piece by piece from where it starts. A name below a directory is followed from the
directory's place (`place_child`), so it leads to what stands there (`find_child_eq_ok`). The places
that are passed on the way (`way`) to an ancestor of a path are passed on the way to the path too
(`way_of_mem_ancestors`).
-/

namespace ConnectorCatalog

namespace Path

/-- The pieces of a path between its slashes. -/
def pieces (p : Path) : List (List Char) := cutAll (· == '/') p

theorem pieces_append_slash (p r : List Char) : pieces (p ++ '/' :: r) = pieces p ++ pieces r :=
  cutAll_append_cons (p := (· == '/')) rfl p r

/-- A name that may stand in a directory: not empty, no dots alone and without slashes. -/
def isEntryName (name : String) : Bool :=
  let s := name.toList
  !s.isEmpty && s != ['.'] && s != ['.', '.'] && !s.contains '/'

section
variable {name : String}

theorem isEntryName_of_isPlainName (h : isPlainName name = true) : isEntryName name = true := by
  simp only [isPlainName, Bool.and_eq_true] at h
  simpa only [isEntryName, Bool.and_eq_true] using h.1

theorem ne_slash_of_isEntryName (h : isEntryName name = true) : ∀ c ∈ name.toList, c ≠ '/' := by
  rintro c hc rfl
  simp [isEntryName, hc] at h

theorem ne_nil_of_isEntryName (h : isEntryName name = true) : name.toList ≠ [] := by
  intro hnil
  simp [isEntryName, hnil] at h

theorem pieces_name (h : isEntryName name = true) : pieces name.toList = [name.toList] :=
  cutAll_eq_singleton fun c hc => beq_false_of_ne (ne_slash_of_isEntryName h c hc)

theorem isAbsolute_name (h : isEntryName name = true) : isAbsolute name.toList = false := by
  cases hs : name.toList with
  | nil => rfl
  | cons c s =>
    have := ne_slash_of_isEntryName h c (by rw [hs]; exact List.mem_cons_self ..)
    simp [isAbsolute, this]

theorem child_ne_nil (h : isEntryName name = true) (dir : Path) : dir.child name ≠ [] := by
  have := ne_nil_of_isEntryName h
  unfold child join
  split_ifs <;> simp [this]

theorem isAbsolute_child (h : isEntryName name = true) (dir : Path) :
    (dir.child name).isAbsolute = dir.isAbsolute := by
  unfold child join
  rw [isAbsolute_name h]
  cases dir with
  | nil => simpa [isAbsolute] using isAbsolute_name h
  | cons c dir => simp only [Bool.false_eq_true, if_false, List.isEmpty_cons]; split <;> rfl

/-- The characters of a name below a directory are those of both and perhaps a slash. -/
theorem mem_child (h : isEntryName name = true) (dir : Path) {c : Char} :
    (c ∈ dir ∨ c ∈ name.toList → c ∈ dir.child name) ∧
      (c ∈ dir.child name → c ∈ dir ∨ c ∈ name.toList ∨ c = '/') := by
  unfold child join
  rw [isAbsolute_name h]
  simp only [Bool.false_eq_true, if_false]
  split_ifs with hempty hslash
  · rw [List.isEmpty_iff] at hempty
    subst hempty
    simp only [List.not_mem_nil, false_or]
    tauto
  · rw [List.mem_append]
    tauto
  · rw [List.mem_append, List.mem_cons]
    tauto

/-- A name below a directory is one piece more, in place of an empty one behind a slash. -/
theorem pieces_child (h : isEntryName name = true) (dir : Path) :
    ∃ front, (dir.child name).pieces = front ++ [name.toList] ∧
      (dir.pieces = front ∨ dir.pieces = front ++ [[]]) := by
  unfold child join
  rw [isAbsolute_name h]
  simp only [Bool.false_eq_true, if_false]
  split_ifs with hempty hslash
  · rw [List.isEmpty_iff] at hempty
    subst hempty
    exact ⟨[], pieces_name h, .inr rfl⟩
  · obtain ⟨parent, rfl⟩ := List.getLast?_eq_some_iff.1 hslash
    refine ⟨pieces parent, ?_, .inr (pieces_append_slash parent [])⟩
    rw [List.append_assoc, List.singleton_append, pieces_append_slash, pieces_name h]
  · exact ⟨dir.pieces, by rw [pieces_append_slash, pieces_name h], .inl rfl⟩

end

theorem upTo_of_mem_step? {before piece : List Char} {isFirst : Bool} {st : Step}
    (h : st ∈ (step? before piece isFirst).toList) : st.upTo = before.reverse := by
  unfold step? at h
  split at h
  · simp at h
  · rw [Option.toList_some, List.mem_singleton] at h
    rw [h]

/-- A step of a path ends in front of a slash or at the end of the path. -/
theorem upTo_of_mem_stepsFrom {before piece r : List Char} {isFirst : Bool} {st : Step}
    (h : st ∈ stepsFrom before piece isFirst r) :
    ∃ u v, st.upTo = before.reverse ++ u ∧ r = u ++ v ∧ (v = [] ∨ ∃ w, v = '/' :: w) := by
  induction r generalizing before piece isFirst with
  | nil => exact ⟨[], [], by rw [upTo_of_mem_step? h, List.append_nil], rfl, .inl rfl⟩
  | cons c r ih =>
    rw [stepsFrom] at h
    split at h
    · rename_i hc
      subst hc
      rcases List.mem_append.1 h with h | h
      · exact ⟨[], '/' :: r, by rw [upTo_of_mem_step? h, List.append_nil], rfl, .inr ⟨r, rfl⟩⟩
      · obtain ⟨u, v, hup, rfl, hv⟩ := ih h
        exact ⟨'/' :: u, v, by simpa using hup, rfl, hv⟩
    · obtain ⟨u, v, hup, rfl, hv⟩ := ih h
      exact ⟨c :: u, v, by simpa using hup, rfl, hv⟩

/-- The ancestors of a path: itself, the root or the current directory, from which it starts, and the
beginnings in front of a slash. -/
theorem mem_ancestors {p a : Path} (h : a ∈ p.ancestors) :
    a = p ∨ (a = [] ∧ p.isAbsolute = false) ∨ (a = ['/'] ∧ p.isAbsolute = true) ∨
      a.isAbsolute = p.isAbsolute ∧ ∃ r, p = a ++ '/' :: r := by
  have hsteps : ∀ st ∈ p.steps, st.upTo = p ∨ (st.upTo = ['/'] ∧ p.isAbsolute = true) ∨
      st.upTo.isAbsolute = p.isAbsolute ∧ ∃ r, p = st.upTo ++ '/' :: r := by
    intro st hst
    unfold steps at hst
    split at hst
    · rename_i r
      rcases List.mem_cons.1 hst with rfl | hst
      · exact .inr (.inl ⟨rfl, rfl⟩)
      · obtain ⟨u, v, hup, rfl, rfl | ⟨w, rfl⟩⟩ := upTo_of_mem_stepsFrom hst
        · exact .inl (by simpa using hup)
        · exact .inr (.inr ⟨by rw [hup]; rfl, w, by rw [hup]; rfl⟩)
    · rename_i hrelative
      obtain ⟨u, v, hup, hp, rfl | ⟨w, rfl⟩⟩ := upTo_of_mem_stepsFrom hst
      · exact .inl (by rw [hp]; simpa using hup)
      · refine .inr (.inr ?_)
        rw [List.reverse_nil, List.nil_append] at hup
        subst hup hp
        cases hu : st.upTo with
        | nil => exact absurd (by rw [hu]; rfl) (hrelative w)
        | cons c u => exact ⟨rfl, w, rfl⟩
  rcases List.mem_cons.1 h with rfl | h
  · exact .inl rfl
  · have habove : ∀ a ∈ ((p.steps.dropLast.map Step.upTo).reverse), a = p ∨
        (a = ['/'] ∧ p.isAbsolute = true) ∨
        a.isAbsolute = p.isAbsolute ∧ ∃ r, p = a ++ '/' :: r := by
      intro a ha
      obtain ⟨st, hst, rfl⟩ := List.mem_map.1 (List.mem_reverse.1 ha)
      exact hsteps st (List.dropLast_subset _ hst)
    unfold properAncestors at h
    dsimp only at h
    split at h
    · rcases habove a h with h | h | h
      · exact .inl h
      · exact .inr (.inr (.inl h))
      · exact .inr (.inr (.inr h))
    · rename_i hrelative
      rcases List.mem_append.1 h with h | h
      · rcases habove a h with h | h | h
        · exact .inl h
        · exact .inr (.inr (.inl h))
        · exact .inr (.inr (.inr h))
      · simp only [Bool.or_eq_true, not_or, Bool.not_eq_true] at hrelative
        exact .inr (.inl ⟨List.mem_singleton.1 h, hrelative.2⟩)

end Path

namespace FileTree

section
variable (t : FileTree)

/-- The place that a path names. -/
def place (p : Path) : Except FileError (List String) := t.followAll (t.start p) p.pieces

/-- The places that are passed by following components, the first and the last included. -/
def wayFrom (place : List String) : List (List Char) → List (List String)
  | [] => [place]
  | c :: cs =>
    place :: match t.follow place c with
      | .ok next => wayFrom next cs
      | .error _ => []

/-- The places that a path passes, as far as it leads. -/
def way (p : Path) : List (List String) := t.wayFrom (t.start p) p.pieces

end

variable {t : FileTree}

theorem find_eq_ok {p : Path} {place : List String} {node : FileNode} :
    t.find p = .ok (place, node) ↔ (∀ c ∈ p, c.toNat ≠ 0) ∧ p ≠ [] ∧
      t.place p = .ok place ∧ t.node? place = some node := by
  unfold find
  split
  · rename_i hnull
    obtain ⟨c, hc, hzero⟩ := List.any_eq_true.1 hnull
    exact iff_of_false nofun fun h => h.1 c hc (beq_iff_eq.1 hzero)
  · rename_i hnull
    have hchars : ∀ c ∈ p, c.toNat ≠ 0 := fun c hc hzero =>
      hnull (List.any_eq_true.2 ⟨c, hc, beq_iff_eq.2 hzero⟩)
    split
    · rename_i hempty
      exact iff_of_false nofun fun h => h.2.1 (List.isEmpty_iff.1 hempty)
    · rename_i hne
      have hne : p ≠ [] := fun h => hne (List.isEmpty_iff.2 h)
      change (t.place p >>= _) = _ ↔ _
      cases t.place p with
      | error e => exact iff_of_false nofun fun h => nomatch h.2.2.1
      | ok parent =>
        simp only [bind, Except.bind]
        cases hnode : t.node? parent with
        | none =>
          refine iff_of_false nofun fun h => ?_
          cases h.2.2.1
          rw [hnode] at h
          exact nomatch h.2.2.2
        | some found =>
          refine ⟨fun h => ?_, fun h => ?_⟩
          · cases h
            exact ⟨hchars, hne, rfl, hnode⟩
          · obtain ⟨-, -, hplace, hfound⟩ := h
            cases hplace
            rw [hnode] at hfound
            cases hfound
            rfl

theorem isDirectory_eq_true {p : Path} :
    t.isDirectory p = true ↔ ∃ place, t.find p = .ok (place, .directory) := by
  unfold isDirectory
  split
  · rename_i place hfind
    exact iff_of_true rfl ⟨place, hfind⟩
  · rename_i hfind
    exact iff_of_false Bool.false_ne_true fun ⟨place, h⟩ => hfind place h

theorem isFile_eq_true {p : Path} :
    t.isFile p = true ↔ ∃ place content, t.find p = .ok (place, .file content) := by
  unfold isFile
  split
  · rename_i place content hfind
    exact iff_of_true rfl ⟨place, content, hfind⟩
  · rename_i hfind
    exact iff_of_false Bool.false_ne_true fun ⟨place, content, h⟩ => hfind place content h

theorem followAll_append (place : List String) (cs ds : List (List Char)) :
    t.followAll place (cs ++ ds) = (t.followAll place cs).bind fun parent => t.followAll parent ds := by
  induction cs generalizing place with
  | nil => rfl
  | cons c cs ih =>
    simp only [List.cons_append, followAll, bind]
    cases t.follow place c with
    | error e => rfl
    | ok next => exact ih next

/-- Only a directory has something below it, and itself behind an empty component. -/
theorem follow_bind_empty (place : List String) (c : List Char) :
    ((t.follow place []).bind fun parent => t.follow parent c) = t.follow place c := by
  cases h : t.node? place with
  | none => simp only [follow, h]; rfl
  | some node =>
    cases node with
    | file content => simp only [follow, h]; rfl
    | directory =>
      have hempty : t.follow place [] = .ok place := by simp [follow, h]
      rw [hempty]
      rfl

/-- A name below a directory is followed from the place of the directory. -/
theorem place_child {name : String} (h : Path.isEntryName name = true) (dir : Path) :
    t.place (dir.child name) = (t.place dir).bind fun parent => t.follow parent name.toList := by
  have hstart : t.start (dir.child name) = t.start dir := by
    rw [start, start, Path.isAbsolute_child h]
  have hlast : ∀ parent, t.followAll parent [name.toList] = t.follow parent name.toList := by
    intro parent
    simp only [followAll, bind]
    cases t.follow parent name.toList <;> rfl
  obtain ⟨front, hchild, hdir | hdir⟩ := Path.pieces_child h dir
  · rw [place, place, hstart, hchild, hdir, followAll_append]
    simp only [hlast]
  · have hempty : ∀ parent, t.followAll parent [[]] = t.follow parent [] := by
      intro parent
      simp only [followAll, bind]
      cases t.follow parent [] <;> rfl
    rw [place, place, hstart, hchild, hdir, followAll_append, followAll_append]
    cases t.followAll (t.start dir) front with
    | error e => rfl
    | ok parent =>
      change t.followAll parent [name.toList] = (t.followAll parent [[]]).bind _
      rw [hlast, hempty, follow_bind_empty]

theorem follow_name {name : String} (h : Path.isEntryName name = true) {parent place : List String} :
    t.follow parent name.toList = .ok place ↔
      t.node? parent = some .directory ∧ place = parent ++ [name] := by
  have hname : t.node? parent = some .directory →
      t.follow parent name.toList = .ok (parent ++ [name]) := by
    intro hparent
    simp only [Path.isEntryName, Bool.and_eq_true, Bool.not_eq_true', bne_iff_ne, ne_eq,
      List.isEmpty_eq_false_iff] at h
    simp [follow, hparent, h]
  refine ⟨fun hfollow => ?_, fun ⟨hparent, hplace⟩ => hplace ▸ hname hparent⟩
  have hparent : t.node? parent = some .directory := by
    unfold follow at hfollow
    split at hfollow
    · cases hfollow
    · cases hfollow
    · assumption
  rw [hname hparent] at hfollow
  cases hfollow
  exact ⟨hparent, rfl⟩

theorem place_child_eq_ok {name : String} (h : Path.isEntryName name = true) {dir : Path}
    {place : List String} : t.place (dir.child name) = .ok place ↔
      ∃ parent, t.place dir = .ok parent ∧ t.node? parent = some .directory ∧
        place = parent ++ [name] := by
  rw [place_child h]
  cases hparent : t.place dir with
  | error e => exact iff_of_false nofun fun ⟨parent, h, _⟩ => nomatch h
  | ok parent =>
    refine (follow_name h).trans ⟨fun hplace => ⟨parent, rfl, hplace⟩, ?_⟩
    rintro ⟨parent, ⟨⟩, hplace⟩
    exact hplace

/-- A name below a directory leads to what the directory has under it. -/
theorem find_child_eq_ok {name : String} (h : Path.isEntryName name = true) {dir : Path}
    (hdir : dir ≠ []) {place : List String} {node : FileNode} :
    t.find (dir.child name) = .ok (place, node) ↔ (∀ c ∈ name.toList, c.toNat ≠ 0) ∧
      ∃ parent, t.find dir = .ok (parent, .directory) ∧ place = parent ++ [name] ∧
        t.node? place = some node := by
  have hchars : (∀ c ∈ dir.child name, c.toNat ≠ 0) ↔
      (∀ c ∈ dir, c.toNat ≠ 0) ∧ ∀ c ∈ name.toList, c.toNat ≠ 0 := by
    refine ⟨fun hc => ⟨fun c hd => hc c ((Path.mem_child h dir).1 (.inl hd)),
      fun c hd => hc c ((Path.mem_child h dir).1 (.inr hd))⟩, fun ⟨hdir, hname⟩ c hc => ?_⟩
    rcases (Path.mem_child h dir).2 hc with hc | hc | rfl
    · exact hdir c hc
    · exact hname c hc
    · decide
  rw [find_eq_ok, place_child_eq_ok h, hchars]
  constructor
  · rintro ⟨⟨hdirchars, hnamechars⟩, -, ⟨parent, hparent, hdirectory, hplace⟩, hnode⟩
    exact ⟨hnamechars, parent, find_eq_ok.2 ⟨hdirchars, hdir, hparent, hdirectory⟩, hplace, hnode⟩
  · rintro ⟨hnamechars, parent, hfind, hplace, hnode⟩
    obtain ⟨hdirchars, -, hparent, hdirectory⟩ := find_eq_ok.1 hfind
    exact ⟨⟨hdirchars, hnamechars⟩, Path.child_ne_nil h dir, ⟨parent, hparent, hdirectory, hplace⟩,
      hnode⟩

/-! ### The way of a path -/

theorem mem_wayFrom_self (place : List String) (cs : List (List Char)) :
    place ∈ t.wayFrom place cs := by
  cases cs <;> simp [wayFrom]

theorem wayFrom_append_subset (place : List String) (cs ds : List (List Char)) :
    t.wayFrom place cs ⊆ t.wayFrom place (cs ++ ds) := by
  induction cs generalizing place with
  | nil =>
    intro q hq
    rw [List.mem_singleton.1 hq]
    exact mem_wayFrom_self place _
  | cons c cs ih =>
    simp only [List.cons_append, wayFrom]
    cases t.follow place c with
    | error e => exact fun q hq => hq
    | ok next => exact List.cons_subset_cons _ (ih next)

/-- The place that components lead to is the last on their way. -/
theorem mem_wayFrom_of_followAll {place last : List String} {cs : List (List Char)}
    (h : t.followAll place cs = .ok last) : last ∈ t.wayFrom place cs := by
  induction cs generalizing place with
  | nil =>
    cases h
    exact mem_wayFrom_self ..
  | cons c cs ih =>
    simp only [followAll, bind] at h
    cases hc : t.follow place c with
    | error e => rw [hc] at h; cases h
    | ok next =>
      rw [hc] at h
      simp only [wayFrom, hc]
      exact List.mem_cons_of_mem _ (ih h)

/-- One more component passes one more place at most. -/
theorem mem_wayFrom_concat {place q : List String} {cs : List (List Char)} {c : List Char}
    (h : q ∈ t.wayFrom place (cs ++ [c])) : q ∈ t.wayFrom place cs ∨
      ∃ parent, t.followAll place cs = .ok parent ∧ t.follow parent c = .ok q := by
  induction cs generalizing place with
  | nil =>
    simp only [List.nil_append, wayFrom] at h
    cases hc : t.follow place c with
    | error e => rw [hc] at h; exact .inl h
    | ok next =>
      rw [hc] at h
      rcases List.mem_cons.1 h with rfl | h
      · exact .inl (mem_wayFrom_self ..)
      · exact .inr ⟨place, rfl, by rw [hc, List.mem_singleton.1 h]⟩
  | cons d cs ih =>
    simp only [List.cons_append, wayFrom] at h ⊢
    cases hd : t.follow place d with
    | error e => rw [hd] at h; exact .inl h
    | ok next =>
      rw [hd] at h
      rcases List.mem_cons.1 h with rfl | h
      · exact .inl (List.mem_cons_self ..)
      · rcases ih h with h | ⟨parent, hparent, hq⟩
        · exact .inl (List.mem_cons_of_mem _ h)
        · exact .inr ⟨parent, by simp only [followAll, hd]; exact hparent, hq⟩

/-- A name below a directory passes the places of the directory and then its own. -/
theorem mem_way_child {name : String} (h : Path.isEntryName name = true) {dir : Path}
    {q : List String} (hq : q ∈ t.way (dir.child name)) : q ∈ t.way dir ∨
      ∃ parent, t.place dir = .ok parent ∧ t.node? parent = some .directory ∧ q = parent ++ [name] := by
  have hstart : t.start (dir.child name) = t.start dir := by
    rw [start, start, Path.isAbsolute_child h]
  obtain ⟨front, hchild, hdir⟩ := Path.pieces_child h dir
  rw [way, hstart, hchild] at hq
  rcases mem_wayFrom_concat hq with hq | ⟨parent, hparent, hq⟩
  · left
    rw [way]
    rcases hdir with hdir | hdir
    · rwa [hdir]
    · rw [hdir]
      exact wayFrom_append_subset _ _ _ hq
  · obtain ⟨hdirectory, hq⟩ := (follow_name h).1 hq
    refine .inr ⟨parent, ?_, hdirectory, hq⟩
    rw [place]
    rcases hdir with hdir | hdir
    · rwa [hdir]
    · rw [hdir, followAll_append, hparent]
      simp [bind, Except.bind, followAll, follow, hdirectory]

/-- An ancestor of a path passes no place that the path does not pass. -/
theorem way_of_mem_ancestors {p a : Path} (h : a ∈ p.ancestors) : t.way a ⊆ t.way p := by
  have hroot : t.node? [] = some .directory := by simp [node?]
  rcases Path.mem_ancestors h with rfl | ⟨rfl, hp⟩ | ⟨rfl, hp⟩ | ⟨hstart, r, hp⟩
  · exact fun q hq => hq
  · intro q hq
    have hcurrent : t.node? t.current = some .directory := by simp [node?]
    have hq : q = t.current := by
      simpa [way, Path.pieces, cutAll, wayFrom, start, Path.isAbsolute, follow, hcurrent] using hq
    have : t.start p = q := by rw [start, hp, hq]; rfl
    exact this ▸ mem_wayFrom_self ..
  · intro q hq
    have hq : q = [] := by
      simpa [way, Path.pieces, cutAll, wayFrom, start, Path.isAbsolute, follow, hroot] using hq
    have : t.start p = q := by rw [start, hp, hq]; rfl
    exact this ▸ mem_wayFrom_self ..
  · rw [way, way, hp, Path.pieces_append_slash, start, start, ← hp, hstart]
    exact wayFrom_append_subset ..

end FileTree

end ConnectorCatalog
