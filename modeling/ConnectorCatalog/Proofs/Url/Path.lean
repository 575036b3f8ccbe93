import ConnectorCatalog.Proofs.Bytes
import ConnectorCatalog.Proofs.Cut
import ConnectorCatalog.Proofs.Trim
import ConnectorCatalog.Proofs.Url.Percent
import ConnectorCatalog.Url.Path
import Mathlib.Data.List.Basic
import Mathlib.Tactic.SplitIfs

/-!
# Segments below a URL

A segment that stays whole comes behind a path after a slash, and is read back from there
(`path_withSegments`, `decode_segmentText`). Slashes at the end of the path count for nothing
(`exists_segmentsOf_trunk`). A segment that does not stay whole leaves something else at the end of
the path: nothing at all for dots, a slash for dots among tabs and line breaks, and what is left
without these (`exists_last_of_not_staysWhole`).
-/

namespace ConnectorCatalog

/-- A path as URLs of a kind have it: empty or from a slash on, with no second slash after it in a
file's path. -/
def SchemeKind.IsSettled (kind : SchemeKind) (path : List Char) : Prop :=
  path = [] ∨ ∃ r, path = '/' :: r ∧ (kind = .file → r.head? ≠ some '/')

theorem SchemeKind.IsSettled.begins {kind : SchemeKind} {path : List Char} (h : kind.IsSettled path) :
    path = [] ∨ path.head? = some '/' := by
  rcases h with rfl | ⟨r, rfl, -⟩
  · exact .inl rfl
  · exact .inr rfl

namespace Url

variable {kind : SchemeKind} {path : List Char}

/-! ### One segment -/

/-- A segment as it is written in a path. -/
def segmentText (kind : SchemeKind) (segment : List Char) : List Char :=
  Percent.encode (Percent.inSegment ++ if kind.takesBackslash then ['\\'] else []) segment

theorem decode_segmentText (kind : SchemeKind) (segment : List Char) :
    Percent.decode (segmentText kind segment) = bytesOf segment :=
  Percent.decode_encode (List.mem_append_left _ (by decide)) segment

theorem ne_slash_of_mem_segmentText {segment : List Char} {c : Char}
    (h : c ∈ segmentText kind segment) : c ≠ '/' :=
  Percent.ne_of_mem_encode h (List.mem_append_left _ (by decide)) (by decide) (by decide)

/-- A segment that is read as dots is dots, however these are written. -/
theorem eq_dots_of_decode {segment text : List Char} (n : Nat) (htext : segmentText kind segment = text)
    (h : Percent.decode text = bytesOf (List.replicate n '.')) : segment = List.replicate n '.' := by
  apply bytesOf_injective
  rw [← h, ← htext, decode_segmentText]

theorem isSingleDot_segmentText {segment : List Char} (h : segment ≠ ['.']) :
    isSingleDot (segmentText kind segment) = false := by
  rw [Bool.eq_false_iff]
  intro hdot
  apply h
  rw [isSingleDot, List.contains_iff_mem] at hdot
  have hread : ∀ text ∈ [".", "%2e", "%2E"],
      Percent.decode text.toList = bytesOf (List.replicate 1 '.') := by decide
  exact eq_dots_of_decode 1 String.toList_ofList.symm (hread _ hdot)

theorem isDoubleDot_segmentText {segment : List Char} (h : segment ≠ ['.', '.']) :
    isDoubleDot (segmentText kind segment) = false := by
  rw [Bool.eq_false_iff]
  intro hdots
  apply h
  simp only [isDoubleDot, List.any_eq_true, beq_iff_eq] at hdots
  obtain ⟨a, ha, b, hb, hdots⟩ := hdots
  have hread : ∀ a ∈ [['.'], ['%', '2', 'e'], ['%', '2', 'E']],
      ∀ b ∈ [['.'], ['%', '2', 'e'], ['%', '2', 'E']],
        Percent.decode (a ++ b) = bytesOf (List.replicate 2 '.') := by decide
  exact eq_dots_of_decode 2 hdots (hread a ha b hb)

/-- What is left of a segment without its tabs and line breaks. -/
def kept (segment : List Char) : List Char :=
  segment.filter fun c => c != '\t' && c != '\n' && c != '\r'

/-- A segment that stays as it is in a path: not dots alone, without tabs and line breaks. -/
def StaysWhole (segment : List Char) : Prop :=
  segment ≠ ['.'] ∧ segment ≠ ['.', '.'] ∧ ∀ c ∈ segment, c ≠ '\t' ∧ c ≠ '\n' ∧ c ≠ '\r'

instance (segment : List Char) : Decidable (StaysWhole segment) :=
  have : Decidable (∀ c ∈ segment, c ≠ '\t' ∧ c ≠ '\n' ∧ c ≠ '\r') := List.decidableBAll _ segment
  inferInstanceAs (Decidable (_ ∧ _ ∧ _))

theorem kept_eq_self {segment : List Char} :
    kept segment = segment ↔ ∀ c ∈ segment, c ≠ '\t' ∧ c ≠ '\n' ∧ c ≠ '\r' := by
  simp [kept, List.filter_eq_self, and_assoc]

theorem ne_of_kept_ne {segment dots : List Char} (hdots : kept dots = dots)
    (h : kept segment ≠ dots) : segment ≠ dots := by
  rintro rfl
  exact h hdots

/-! ### Paths that grow -/

/-- A path without the one slash that it may be. -/
def trunk (path : List Char) : List Char := if path = ['/'] then [] else path

theorem trunk_of_ne (h : path ≠ ['/']) : trunk path = path := if_neg h

theorem trunk_ne (path : List Char) : trunk path ≠ ['/'] := by
  rw [trunk]
  split_ifs with h
  · exact nofun
  · exact h

theorem isSettled_trunk (h : kind.IsSettled path) : kind.IsSettled (trunk path) := by
  rw [trunk]
  split_ifs
  · exact .inl rfl
  · exact h

theorem settlePath_eq (h : kind.IsSettled path) (hne : path ≠ []) : settlePath kind path = path := by
  obtain ⟨r, rfl, hr⟩ := h.resolve_left hne
  rw [settlePath]
  split_ifs with hfile
  · rw [List.dropWhile_cons_of_pos (by decide)]
    have := hr hfile
    cases r with
    | nil => rfl
    | cons c r => rw [List.dropWhile_cons_of_neg (by simpa using this)]
  · rfl

/-- A segment without slashes keeps a path settled. -/
theorem isSettled_append (h : kind.IsSettled path) (hpath : path ≠ ['/']) {segment : List Char}
    (hsegment : segment.head? ≠ some '/') : kind.IsSettled (path ++ '/' :: segment) := by
  rcases h with rfl | ⟨r, rfl, hr⟩
  · exact .inr ⟨segment, rfl, fun _ => hsegment⟩
  · refine .inr ⟨r ++ '/' :: segment, rfl, fun hfile => ?_⟩
    have hne : r ≠ [] := fun hnil => hpath (by rw [hnil])
    rw [List.head?_append_of_ne_nil _ hne]
    exact hr hfile

theorem pushSegment_eq {segment : List Char} (hdot : segment ≠ ['.']) (hdots : segment ≠ ['.', '.']) :
    pushSegment kind path segment
      = settlePath kind
          (addSegment kind (trunk path ++ ['/']) (segmentText kind (kept segment)) false) := by
  have hslash : (if path = ['/'] then path else path ++ ['/']) = trunk path ++ ['/'] := by
    rw [trunk]
    split_ifs with h
    · rw [h]
      rfl
    · rfl
  rw [pushSegment, if_neg (not_or.2 ⟨hdot, hdots⟩), ← hslash]
  rfl

theorem head?_segmentText (kind : SchemeKind) (segment : List Char) :
    (segmentText kind segment).head? ≠ some '/' := fun h =>
  ne_slash_of_mem_segmentText (List.mem_of_mem_head? h) rfl

/-- What is left of a segment stands behind a slash, if it is not dots and not a drive letter at the
beginning of the path. -/
theorem pushSegment_of_kept (h : kind.IsSettled path) {segment : List Char}
    (hdot : kept segment ≠ ['.']) (hdots : kept segment ≠ ['.', '.'])
    (hdrive : trunk path = [] → isDriveLetter (segmentText kind (kept segment)) = false) :
    pushSegment kind path segment = trunk path ++ '/' :: segmentText kind (kept segment) := by
  have hadd : addSegment kind (trunk path ++ ['/']) (segmentText kind (kept segment)) false
      = trunk path ++ '/' :: segmentText kind (kept segment) := by
    have hplain : ¬ (kind = .file ∧ trunk path ++ ['/'] = ['/'] ∧
        isDriveLetter (segmentText kind (kept segment)) = true) := by
      rintro ⟨-, hroot, hletter⟩
      rw [hdrive (List.append_left_eq_self.1 hroot)] at hletter
      cases hletter
    rw [addSegment, isDoubleDot_segmentText hdots, isSingleDot_segmentText hdot]
    simp only [Bool.false_eq_true, if_false, if_neg hplain, List.append_nil, List.append_assoc,
      List.singleton_append]
  rw [pushSegment_eq (ne_of_kept_ne rfl hdot) (ne_of_kept_ne rfl hdots), hadd]
  exact settlePath_eq (isSettled_append (isSettled_trunk h) (trunk_ne path) (head?_segmentText _ _))
    (by simp)

theorem pushSegment_of_staysWhole (h : kind.IsSettled path) {segment : List Char}
    (hwhole : StaysWhole segment)
    (hdrive : trunk path = [] → isDriveLetter (segmentText kind segment) = false) :
    pushSegment kind path segment = trunk path ++ '/' :: segmentText kind segment := by
  have hkept := kept_eq_self.2 hwhole.2.2
  rw [pushSegment_of_kept h (by rw [hkept]; exact hwhole.1) (by rw [hkept]; exact hwhole.2.1)
    (by rwa [hkept]), hkept]

/-- Segments behind a path, each after a slash. -/
def below (path : List Char) (names : List (List Char)) : List Char :=
  path ++ names.flatMap ('/' :: ·)

theorem append_ne_root {segment : List Char} (h : path ≠ [] ∨ segment ≠ []) :
    path ++ '/' :: segment ≠ ['/'] := by
  intro hroot
  have hlength := congrArg List.length hroot
  simp only [List.length_append, List.length_cons, List.length_nil] at hlength
  rcases h with h | h
  · have := List.length_pos_of_ne_nil h
    omega
  · have := List.length_pos_of_ne_nil h
    omega

/-- Segments that stay whole come behind a path that has one already, one after the other. -/
theorem foldl_pushSegment (h : kind.IsSettled path) (hne : path ≠ []) (hroot : path ≠ ['/'])
    {segments : List (List Char)} (hwhole : ∀ s ∈ segments, StaysWhole s) :
    segments.foldl (pushSegment kind) path = below path (segments.map (segmentText kind)) := by
  induction segments generalizing path with
  | nil => exact (List.append_nil path).symm
  | cons segment segments ih =>
    have htrunk := trunk_of_ne hroot
    have hpush := pushSegment_of_staysWhole h (hwhole segment (List.mem_cons_self ..))
      (fun hnil => absurd (htrunk.symm.trans hnil) hne)
    have hsettled := isSettled_append h hroot (head?_segmentText kind segment)
    rw [htrunk] at hpush
    rw [List.foldl_cons, hpush, ih hsettled (by simp) (append_ne_root (.inl hne))
      fun s hs => hwhole s (List.mem_cons_of_mem _ hs)]
    simp [below]

theorem isSettled_popIfEmpty (h : kind.IsSettled path) : kind.IsSettled (popIfEmpty path) := by
  rw [popIfEmpty]
  split_ifs with hends
  · rcases h with rfl | ⟨r, rfl, hr⟩
    · exact .inl rfl
    · have hne : r ≠ [] := by
        rintro rfl
        simp at hends
      refine .inr ⟨r.dropLast, List.dropLast_cons_of_ne_nil hne, fun hfile hhead => hr hfile ?_⟩
      rw [List.head?_dropLast] at hhead
      split_ifs at hhead
      exact hhead
  · exact h

/-! ### Segments of a path -/

/-- The segments of a path. -/
def segmentsOf : List Char → List (List Char)
  | [] => []
  | _ :: r => cutAll (· == '/') r

theorem segments_eq (u : Url) : u.segments = segmentsOf u.path := by
  rw [segments]
  cases u.path <;> rfl

theorem segmentsOf_append (h : path = [] ∨ path.head? = some '/') {name : List Char}
    (hname : ∀ c ∈ name, c ≠ '/') : segmentsOf (path ++ '/' :: name) = segmentsOf path ++ [name] := by
  have hsingle : cutAll (· == '/') name = [name] :=
    cutAll_eq_singleton fun c hc => beq_eq_false_iff_ne.2 (hname c hc)
  rcases h with rfl | hhead
  · exact hsingle
  · obtain ⟨r, rfl⟩ := List.head?_eq_some_iff.1 hhead
    exact (cutAll_append_cons (by decide) r name).trans (by rw [hsingle]; rfl)

/-- What comes behind a path comes behind its segments. -/
theorem segmentsOf_below (h : path = [] ∨ path.head? = some '/') {names : List (List Char)}
    (hnames : ∀ name ∈ names, ∀ c ∈ name, c ≠ '/') :
    segmentsOf (below path names) = segmentsOf path ++ names := by
  induction names generalizing path with
  | nil => rw [below, List.flatMap_nil, List.append_nil, List.append_nil]
  | cons name names ih =>
    have hnext : below path (name :: names) = below (path ++ '/' :: name) names := by simp [below]
    have hhead : (path ++ '/' :: name).head? = some '/' := by
      rcases h with rfl | hhead
      · rfl
      · rw [List.head?_append, hhead]
        rfl
    rw [hnext, ih (.inr hhead) fun n hn => hnames n (List.mem_cons_of_mem _ hn),
      segmentsOf_append h (hnames name (List.mem_cons_self ..)), List.append_assoc,
      List.singleton_append]

/-- Only slashes are dropped from the end of a path before segments come behind it. -/
theorem exists_segmentsOf_trunk (h : path = [] ∨ path.head? = some '/') : ∃ slashes : Nat,
    segmentsOf path = segmentsOf (trunk (popIfEmpty path)) ++ List.replicate slashes [] := by
  have htrunk (p : List Char) : ∃ slashes : Nat,
      segmentsOf p = segmentsOf (trunk p) ++ List.replicate slashes [] := by
    by_cases hroot : p = ['/']
    · exact ⟨1, by rw [hroot]; rfl⟩
    · exact ⟨0, by rw [trunk_of_ne hroot]; exact (List.append_nil _).symm⟩
  obtain ⟨slashes, hslashes⟩ := htrunk (popIfEmpty path)
  by_cases hends : 1 < path.length ∧ path.getLast? = some '/'
  · have hpop : popIfEmpty path = path.dropLast := if_pos hends
    have hpath : path = popIfEmpty path ++ ['/'] := by
      rw [hpop, List.dropLast_append_getLast? _ hends.2]
    have hbegins : popIfEmpty path = [] ∨ (popIfEmpty path).head? = some '/' := by
      rw [hpop, List.head?_dropLast, if_pos hends.1]
      exact .inr (h.resolve_left (by rintro rfl; simp at hends))
    refine ⟨slashes + 1, ?_⟩
    rw [List.replicate_succ', ← List.append_assoc, ← hslashes]
    conv => lhs; rw [hpath]
    exact segmentsOf_append hbegins nofun
  · rw [show popIfEmpty path = path from if_neg hends] at hslashes ⊢
    exact ⟨slashes, hslashes⟩

/-- One URL is the other with segments behind its path, for which slashes at the end of the path
count for nothing. Nothing else but the query may differ. -/
structure LeadsBelow (u v : Url) (names : List (List Char)) : Prop where
  scheme : v.scheme = u.scheme
  authority : v.authority = u.authority
  fragment : v.fragment = u.fragment
  segments : ∃ (front : List (List Char)) (slashes : Nat),
    u.segments = front ++ List.replicate slashes [] ∧ v.segments = front ++ names

/-- Segments that stay whole come below a URL. The first is not empty and not a drive letter, so the
path is more than a slash when the others come behind it. -/
theorem path_withSegments (u : Url) (h : (SchemeKind.ofScheme u.scheme).IsSettled u.path)
    {first : List Char} {segments : List (List Char)}
    (hwhole : ∀ s ∈ first :: segments, StaysWhole s)
    (hne : segmentText (.ofScheme u.scheme) first ≠ [])
    (hdrive : isDriveLetter (segmentText (.ofScheme u.scheme) first) = false) :
    (u.withSegments (first :: segments)).path
      = below (trunk (popIfEmpty u.path))
          ((first :: segments).map (segmentText (.ofScheme u.scheme))) := by
  have hpop := isSettled_popIfEmpty h
  have hpush := pushSegment_of_staysWhole hpop (hwhole first (List.mem_cons_self ..)) fun _ => hdrive
  change (first :: segments).foldl (pushSegment (.ofScheme u.scheme)) (popIfEmpty u.path) = _
  rw [List.foldl_cons, hpush, foldl_pushSegment
    (isSettled_append (isSettled_trunk hpop) (trunk_ne _) (head?_segmentText _ _)) (by simp)
    (append_ne_root (.inr hne)) fun s hs => hwhole s (List.mem_cons_of_mem _ hs)]
  simp [below]

/-- Segments come below a URL if they come behind its path. -/
theorem leadsBelow_withSegments {u : Url} (h : (SchemeKind.ofScheme u.scheme).IsSettled u.path)
    {segments names : List (List Char)} (hnames : ∀ name ∈ names, ∀ c ∈ name, c ≠ '/')
    (hpath : (u.withSegments segments).path = below (trunk (popIfEmpty u.path)) names) :
    u.LeadsBelow (u.withSegments segments) names := by
  obtain ⟨slashes, hslashes⟩ := exists_segmentsOf_trunk h.begins
  refine ⟨rfl, rfl, rfl, segmentsOf (trunk (popIfEmpty u.path)), slashes, ?_, ?_⟩
  · rw [segments_eq, hslashes]
  · have hbegins := (isSettled_trunk (isSettled_popIfEmpty h)).begins
    rw [segments_eq, hpath, segmentsOf_below hbegins hnames]

/-! ### Segments that do not stay whole -/

theorem leaveSegment_append {segment : List Char} (hslash : ∀ c ∈ segment, c ≠ '/')
    (hdrive : isDriveLetter segment = false) :
    leaveSegment (path ++ '/' :: segment ++ ['/']) = path ++ ['/'] := by
  have hcut : cutAtLast (· == '/') (path ++ '/' :: segment) = some (path, segment) :=
    cutAtLast_append (fun c hc => beq_eq_false_iff_ne.2 (hslash c hc)) (by decide) path
  rw [leaveSegment, List.dropLast_concat, hcut]
  dsimp only
  rw [hdrive, if_neg Bool.false_ne_true]

/-- A segment of which one dot is kept leaves a slash. -/
theorem pushSegment_of_kept_dot (h : kind.IsSettled path) {segment : List Char}
    (hdot : segment ≠ ['.']) (hkept : kept segment = ['.']) :
    pushSegment kind path segment = trunk path ++ ['/'] := by
  have hdots : segment ≠ ['.', '.'] := ne_of_kept_ne rfl (by rw [hkept]; decide)
  have hstays : addSegment kind (trunk path ++ ['/']) (segmentText kind ['.']) false
      = trunk path ++ ['/'] := by
    cases kind <;> rfl
  rw [pushSegment_eq hdot hdots, hkept, hstays]
  exact settlePath_eq (isSettled_append (isSettled_trunk h) (trunk_ne path) nofun) (by simp)

/-- A segment of which two dots are kept leaves a slash in place of the segment before it. -/
theorem pushSegment_of_kept_dots (h : kind.IsSettled path) (hroot : path ≠ ['/'])
    {before segment : List Char} (hslash : ∀ c ∈ before, c ≠ '/') (hne : before ≠ [])
    (hdrive : isDriveLetter before = false) (hdots : segment ≠ ['.', '.'])
    (hkept : kept segment = ['.', '.']) :
    pushSegment kind (path ++ '/' :: before) segment = path ++ ['/'] := by
  have hdot : segment ≠ ['.'] := ne_of_kept_ne rfl (by rw [hkept]; decide)
  have hleft : addSegment kind (path ++ '/' :: before ++ ['/']) (segmentText kind ['.', '.']) false
      = path ++ ['/'] := by
    have hread : isDoubleDot (segmentText kind ['.', '.']) = true := by cases kind <;> rfl
    rw [addSegment, hread, if_pos rfl, leaveSegment_append hslash hdrive]
  rw [pushSegment_eq hdot hdots, trunk_of_ne (append_ne_root (.inr hne)), hkept, hleft]
  exact settlePath_eq (isSettled_append h hroot nofun) (by simp)

/-- Behind another segment, one that does not stay whole leaves something else at the end of the path.
-/
theorem exists_last_of_not_staysWhole (h : kind.IsSettled path) (hroot : path ≠ ['/'])
    {first segment : List Char} (hfirst : StaysWhole first) (hne : segmentText kind first ≠ [])
    (hdrive : isDriveLetter (segmentText kind first) = false) (hwhole : ¬ StaysWhole segment) :
    ∃ front last, segmentsOf (pushSegment kind (path ++ '/' :: segmentText kind first) segment)
      = front ++ [last] ∧ Percent.decode last ≠ bytesOf segment := by
  have hslash : ∀ c ∈ segmentText kind first, c ≠ '/' := fun c hc => ne_slash_of_mem_segmentText hc
  have hsettled := isSettled_append h hroot (head?_segmentText kind first)
  have hroot' : path ++ '/' :: segmentText kind first ≠ ['/'] := append_ne_root (.inr hne)
  have htrunk := trunk_of_ne hroot'
  have hempty (hsegment : kept segment ≠ []) : Percent.decode [] ≠ bytesOf segment := by
    intro heq
    rw [← bytesOf_injective (t := []) heq] at hsegment
    exact hsegment rfl
  by_cases hplain : segment = ['.'] ∨ segment = ['.', '.']
  · refine ⟨segmentsOf path, segmentText kind first, ?_, ?_⟩
    · rw [pushSegment, if_pos hplain, segmentsOf_append h.begins hslash]
    · rw [decode_segmentText]
      intro heq
      rw [← bytesOf_injective heq] at hplain
      exact hplain.elim hfirst.1 hfirst.2.1
  · obtain ⟨hdot, hdots⟩ := not_or.1 hplain
    by_cases hkeptdots : kept segment = ['.', '.']
    · refine ⟨segmentsOf path, [], ?_, hempty (by rw [hkeptdots]; exact nofun)⟩
      rw [pushSegment_of_kept_dots h hroot hslash hne hdrive hdots hkeptdots,
        segmentsOf_append h.begins (by simp)]
    by_cases hkeptdot : kept segment = ['.']
    · refine ⟨segmentsOf (path ++ '/' :: segmentText kind first), [], ?_,
        hempty (by rw [hkeptdot]; exact nofun)⟩
      rw [pushSegment_of_kept_dot hsettled hdot hkeptdot, htrunk,
        segmentsOf_append hsettled.begins (by simp)]
    · refine ⟨segmentsOf (path ++ '/' :: segmentText kind first), segmentText kind (kept segment),
        ?_, ?_⟩
      · rw [pushSegment_of_kept hsettled hkeptdot hkeptdots (fun hnil => by simp [htrunk] at hnil),
          htrunk, segmentsOf_append hsettled.begins fun c hc => ne_slash_of_mem_segmentText hc]
      · rw [decode_segmentText]
        exact fun heq => hwhole ⟨hdot, hdots, kept_eq_self.1 (bytesOf_injective heq)⟩

end Url

end ConnectorCatalog
