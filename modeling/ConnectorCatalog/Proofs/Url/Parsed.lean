import ConnectorCatalog.Proofs.Basic
import ConnectorCatalog.Proofs.Url.Path
import ConnectorCatalog.Url.Parser
import Mathlib.Tactic.SplitIfs

/-!
# The paths of URLs that are read

Whatever segments are read, the path begins with a slash, and leaving a segment never takes that away.
So the path of a URL that is read is settled (`isSettled_parse`): segments can come below it.
-/

namespace ConnectorCatalog

variable {kind : SchemeKind} {path : List Char}

theorem isSettled_settlePath (h : path.head? = some '/') : kind.IsSettled (settlePath kind path) := by
  rw [settlePath]
  split_ifs with hkind
  · refine .inr ⟨_, rfl, fun _ hhead => ?_⟩
    have := List.head?_dropWhile_not (· == '/') path
    rw [hhead] at this
    cases this
  · obtain ⟨r, rfl⟩ := List.head?_eq_some_iff.1 h
    exact .inr ⟨r, rfl, fun hfile => absurd hfile hkind⟩

/-- Only the last segment is left. -/
theorem leaveSegment_eq (path : List Char) :
    leaveSegment path = path ∨ ∃ before segment,
      path.dropLast = before ++ '/' :: segment ∧ leaveSegment path = before ++ ['/'] := by
  rw [leaveSegment, cutAtLast]
  rcases hcut : cutAtFirst (· == '/') path.dropLast.reverse with _ | ⟨last, rest⟩
  · exact .inl rfl
  · obtain ⟨c, hc, hpath, -⟩ := cutAtFirst_eq_some hcut
    rw [beq_iff_eq] at hc
    subst hc
    have hpath : path.dropLast = rest.reverse ++ '/' :: last.reverse := by
      rw [← List.reverse_reverse path.dropLast, hpath]
      simp
    dsimp only [Option.map_some]
    split_ifs
    · exact .inl rfl
    · exact .inr ⟨rest.reverse, last.reverse, hpath, rfl⟩

theorem head?_leaveSegment (h : path.head? = some '/') : (leaveSegment path).head? = some '/' := by
  rcases leaveSegment_eq path with hleft | ⟨before, segment, hpath, hleft⟩
  · rw [hleft, h]
  · rw [hleft]
    cases before with
    | nil => rfl
    | cons c before =>
      have hbegins : [c] <+: path :=
        List.IsPrefix.trans ⟨before ++ '/' :: segment, hpath.symm⟩ (List.dropLast_prefix path)
      obtain ⟨r, rfl⟩ := hbegins
      exact h

theorem head?_addSegment (h : path.head? = some '/') (segment : List Char) (closed : Bool) :
    (addSegment kind path segment closed).head? = some '/' := by
  obtain ⟨r, rfl⟩ := List.head?_eq_some_iff.1 h
  rw [addSegment]
  split_ifs
  · exact head?_leaveSegment h
  all_goals rfl

theorem isSettled_readPath (h : path.head? = some '/') (segment s : List Char) :
    kind.IsSettled (readPath kind path segment s).1 := by
  induction s generalizing path segment with
  | nil => exact isSettled_settlePath (head?_addSegment h segment false)
  | cons c r ih =>
    rw [readPath]
    split_ifs
    · exact ih (head?_addSegment h segment true) []
    · exact isSettled_settlePath (head?_addSegment h segment false)
    · exact ih h _

/-- A text that begins with a slash is read from there on. -/
theorem isSettled_readPath_nil {c : Char} (hc : kind.isSlash c = true) (r : List Char) :
    kind.IsSettled (readPath kind [] [] (c :: r)).1 := by
  rw [readPath, if_pos hc]
  have hfirst : addSegment kind [] [] true = ['/'] := by cases kind <;> decide
  rw [hfirst]
  exact isSettled_readPath rfl [] r

theorem isSettled_readPathStart (s : List Char) : kind.IsSettled (readPathStart kind s).1 := by
  unfold readPathStart
  split
  · split_ifs
    · exact .inl rfl
    · exact isSettled_readPath rfl [] []
  · split_ifs with hkind hend hslash
    · exact .inl rfl
    · exact isSettled_readPath_nil (by rw [hslash]; rfl) _
    · exact isSettled_readPath rfl [] _
    · exact isSettled_readPath rfl [] _
    · exact isSettled_readPath rfl [] _

theorem isSettled_readAuthority {scheme s : List Char} {u : Url}
    (h : readAuthority kind scheme s = .ok u) : u.scheme = scheme ∧ kind.IsSettled u.path := by
  obtain ⟨⟨username, password, r⟩, -, h⟩ := bind_eq_ok.1 h
  obtain ⟨⟨host, port, rest⟩, -, h⟩ := bind_eq_ok.1 h
  dsimp only at h
  split_ifs at h
  cases h
  exact ⟨rfl, isSettled_readPathStart rest⟩

theorem isSettled_readFile {scheme s : List Char} {u : Url}
    (h : readFile scheme s = .ok u) : u.scheme = scheme ∧ SchemeKind.file.IsSettled u.path := by
  unfold readFile at h
  dsimp only at h
  split at h
  · split at h
    · split at h
      · cases h
        exact ⟨rfl, isSettled_readPath rfl [] _⟩
      · split at h
        · cases h
          exact ⟨rfl, isSettled_readPathStart _⟩
        · obtain ⟨host, -, h⟩ := bind_eq_ok.1 h
          cases h
          exact ⟨rfl, isSettled_readPathStart _⟩
    · cases h
      refine ⟨rfl, ?_⟩
      dsimp only [assembled]
      split_ifs with hslash
      · exact isSettled_readPath_nil hslash _
      · exact isSettled_readPath rfl [] _
  · cases h
    exact ⟨rfl, isSettled_readPath rfl [] _⟩

/-- The path of a URL that is read is settled. -/
theorem isSettled_parse {text : String} {u : Url} (h : UrlText.parse text = .ok (.hierarchical u)) :
    (SchemeKind.ofScheme u.scheme).IsSettled u.path := by
  unfold UrlText.parse at h
  dsimp only at h
  split at h
  · cases h
  · rename_i scheme r _
    split at h
    · rename_i hkind
      obtain ⟨v, hv, hu⟩ := map_eq_ok.1 h
      cases hu
      obtain ⟨hscheme, hpath⟩ := isSettled_readFile hv
      rwa [hscheme, hkind]
    · rename_i hkind
      obtain ⟨v, hv, hu⟩ := map_eq_ok.1 h
      cases hu
      obtain ⟨hscheme, hpath⟩ := isSettled_readAuthority hv
      rwa [hscheme, hkind]
    · rename_i hkind
      split at h
      · obtain ⟨v, hv, hu⟩ := map_eq_ok.1 h
        cases hu
        obtain ⟨hscheme, hpath⟩ := isSettled_readAuthority hv
        rwa [hscheme, hkind]
      · cases h
        change (SchemeKind.ofScheme scheme).IsSettled _
        rw [hkind]
        exact isSettled_readPath rfl [] _
      · cases h

end ConnectorCatalog
