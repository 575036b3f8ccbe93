import ConnectorCatalog.Proofs.Offset.Cells
import ConnectorCatalog.Proofs.Offset.Counter

/-!
# Partners and ranges by offset

Looking for a partner never takes one from a count of zero, and it ends at the offset of the partner
in the cells (`matchingClose_filter`). Whatever a counter shows, a range between separators begins and
ends at a cut of the document (`runs_splitTopLevel`). In a document of fewer than two to the power 31
bytes the nesting between two cuts and the ranges are those of the cells.
-/

namespace ConnectorCatalog.Offset

/-- One opening has been counted already, so the count does not fall below zero. -/
theorem scanClose_eq {opening closing : Char} {bytes : List UInt8} {depth offset : Nat} :
    scanClose opening closing (depth + 1) offset bytes
      = .ok ((closeFrom byteView opening closing (depth + 1) bytes).map (offset + ·)) := by
  induction bytes generalizing depth offset with
  | nil => rfl
  | cons b r ih =>
    have hnext : ∀ d, .ok ((closeFrom byteView opening closing d r).map (offset + 1 + ·))
        = (Except.ok (((closeFrom byteView opening closing d r).map (· + 1)).map (offset + ·)) :
          Except Fault (Option Nat)) := by
      intro d
      rw [Option.map_map]
      refine congrArg _ (congrArg (Option.map · _) (funext fun i => ?_))
      simp only [Function.comp_apply]
      omega
    rw [scanClose, closeFrom]
    split_ifs with h1 h2 h3
    · rw [ih, hnext]
    · obtain rfl : depth = 0 := by omega
      rfl
    · obtain ⟨d, rfl⟩ := Nat.exists_eq_add_of_lt (by omega : 0 < depth)
      simp only [predecessor, bind, Except.bind, Nat.zero_add] at h3 ⊢
      rw [if_neg (by omega), ih, hnext]
      rfl
    · rw [ih, hnext]

/-- The partner of the first bracket of some bytes that follow others. -/
theorem matchingClose_append (pre bytes : List UInt8) :
    matchingClose (pre ++ bytes) pre.length
      = .ok ((closeIndex? byteView bytes).map (pre.length + ·)) := by
  rw [matchingClose, List.getElem?_append_right (Nat.le_refl _), Nat.sub_self]
  cases bytes with
  | nil => rfl
  | cons b r =>
    simp only [List.getElem?_cons_zero]
    rw [closeIndex?]
    cases hc : closing? (byteView b) with
    | none => rfl
    | some closing =>
      have htail : sliceBytes (pre ++ b :: r) pre.length (pre ++ b :: r).length = .ok (b :: r) := by
        have := sliceList_append pre (b :: r) []
        rwa [List.append_nil] at this
      simp only [htail, bind, Except.bind]
      rw [scanClose, if_pos rfl, scanClose_eq, Option.map_map]
      refine congrArg _ (congrArg (Option.map · _) (funext fun i => ?_))
      simp only [Function.comp_apply]
      omega

/-- The partner of the first bracket of some cells of a document. -/
theorem matchingClose_shownBytes (a s : List Cell) :
    matchingClose (shownBytes (a ++ s)) (width a)
      = .ok ((closeIndex? Cell.shown s).map fun i => width (a ++ s.take i)) := by
  have h := matchingClose_append (shownBytes a) (shownBytes s)
  rw [← shownBytes_append, length_shownBytes_eq_width] at h
  rw [h, shownBytes_eq_flatMap s, spread_bytes.closeIndex?_flatMap, Option.map_map]
  refine congrArg _ (congrArg (Option.map · _) (funext fun i => ?_))
  rw [Function.comp_apply, ← shownBytes_eq_flatMap, length_shownBytes_eq_width, width_append]

/-- A partner that is found only with text behind stands in that text. -/
theorem length_le_of_closeFrom {α : Type _} {view : α → Char} {opening closing : Char} {depth i : Nat}
    {s t : List α} (h : closeFrom view opening closing depth s = none)
    (hi : closeFrom view opening closing depth (s ++ t) = some i) : s.length ≤ i := by
  induction s generalizing depth i with
  | nil => exact Nat.zero_le i
  | cons x s ih =>
    have hnext : ∀ {d}, (closeFrom view opening closing d s).map (· + 1) = none →
        (closeFrom view opening closing d (s ++ t)).map (· + 1) = some i →
        (x :: s).length ≤ i := by
      intro d hd hdi
      obtain ⟨j, hj, rfl⟩ := Option.map_eq_some_iff.1 hdi
      exact Nat.succ_le_succ (ih (Option.map_eq_none_iff.1 hd) hj)
    rw [closeFrom] at h
    rw [List.cons_append, closeFrom] at hi
    split_ifs at h hi with h1 h2 h3
    · exact hnext h hi
    · exact hnext h hi
    · exact hnext h hi

theorem length_le_of_closeIndex? {α : Type _} {view : α → Char} {i : Nat} {s t : List α} (hs : s ≠ [])
    (h : closeIndex? view s = none) (hi : closeIndex? view (s ++ t) = some i) : s.length ≤ i := by
  cases s with
  | nil => exact absurd rfl hs
  | cons x s =>
    rw [closeIndex?] at h
    rw [List.cons_append, closeIndex?] at hi
    cases hc : closing? (view x) with
    | none => rw [hc] at hi; cases hi
    | some closing =>
      rw [hc] at h hi
      obtain ⟨j, hj, rfl⟩ := Option.map_eq_some_iff.1 hi
      exact Nat.succ_le_succ (length_le_of_closeFrom (Option.map_eq_none_iff.1 h) hj)

theorem lt_length_of_closeIndex? {α : Type _} {view : α → Char} {i : Nat} {s : List α}
    (h : closeIndex? view s = some i) : i < s.length := by
  obtain ⟨o, body, x, after, rfl, -, rfl⟩ := closeIndex?_eq_some h
  simp only [List.length_cons, List.length_append]
  omega

/-- A partner that is looked for in the whole document and has to stand before a cut is the partner in
the cells up to the cut. -/
theorem matchingClose_filter (a b : List Cell) {s : List Cell} (hs : s ≠ []) :
    ∃ found, matchingClose (shownBytes (a ++ s ++ b)) (width a) = .ok found ∧
      found.filter (· < width (a ++ s))
        = (closeIndex? Cell.shown s).map fun i => width (a ++ s.take i) := by
  refine ⟨_, by rw [List.append_assoc]; exact matchingClose_shownBytes a (s ++ b), ?_⟩
  cases h : closeIndex? Cell.shown s with
  | some i =>
    have hlt := lt_length_of_closeIndex? h
    rw [closeIndex?_append h, Option.map_some, Option.map_some,
      List.take_append_of_le_length (Nat.le_of_lt hlt), Option.filter_some, if_pos]
    have hsplit : a ++ s = a ++ s.take i ++ s.drop i := by
      rw [List.append_assoc, List.take_append_drop]
    obtain ⟨x, r, hx⟩ := List.exists_cons_of_ne_nil (List.drop_eq_nil_iff.not.2 (Nat.not_le.2 hlt))
    have := x.char.utf8Size_pos
    rw [hsplit, hx, width_append (a ++ s.take i), width_cons, decide_eq_true_iff]
    omega
  | none =>
    -- a partner in the text behind is dropped by the filter
    rw [Option.map_none]
    cases hi : closeIndex? Cell.shown (s ++ b) with
    | none => rfl
    | some i =>
      have hle := length_le_of_closeIndex? hs h hi
      rw [Option.map_some, Option.filter_some, if_neg]
      rw [List.take_append, List.take_of_length_le hle, ← List.append_assoc,
        width_append (a ++ s), decide_eq_true_iff]
      omega

section Counts

variable {mode : Overflow} {small : Prop} {document : List Cell}

/-- The nesting between two cuts of a document. -/
theorem runs_nestingDepth (hsmall : small → width document < countLimit) {a r b : List Cell}
    (hdocument : document = a ++ r ++ b) :
    Runs mode small (fun depth => small → depth.toInt = nesting Cell.shown r)
      (nestingDepth mode (shownBytes document) (width a) (width (a ++ r))) := by
  have hnesting : nesting byteView (shownBytes r) = nesting Cell.shown r := by
    rw [shownBytes_eq_flatMap, spread_bytes.nesting_flatMap]
  rw [nestingDepth, hdocument, sliceBytes_shownBytes]
  change Runs mode small _ (countFrom mode 0 (shownBytes r))
  have hfits : small → ∀ k, Fits ((0 : Int32).toInt + nesting byteView ((shownBytes r).take k)) := by
    intro hs k
    have hle := natAbs_nesting_le ((shownBytes r).take k)
    have hlength := length_shownBytes_eq_width r
    have hwidth := hsmall hs
    rw [hdocument, width_append, width_append] at hwidth
    rw [List.length_take] at hle
    rw [Int32.toInt_zero, Int.zero_add]
    exact fits_of_natAbs_lt (by omega)
  obtain ⟨hok, -⟩ | ⟨herror, hmode, k, hk⟩ := countFrom_cases mode 0 (shownBytes r)
  · rw [hok]
    intro hs
    have hall := hfits hs (shownBytes r).length
    rw [List.take_length] at hall
    rw [toInt_ofInt hall, Int32.toInt_zero, Int.zero_add, hnesting]
  · rw [herror]
    exact ⟨rfl, hmode, fun hs => hk (hfits hs k)⟩

/-- The range begins and ends where the piece does. -/
def IsRange (document : List Cell) (range : Nat × Nat) (piece : List Cell) : Prop :=
  ∃ u v, document = u ++ piece ++ v ∧ range = (width u, width (u ++ piece))

theorem rangesFrom_append_of_idle {separator : Char}
    (hs : isAscii separator = true ∧ separator ≠ ' ') {bs : List UInt8}
    (hidle : ∀ b ∈ bs, IsIdle (byteView b)) (start i : Nat) (depth : Int32) (r : List UInt8) :
    rangesFrom mode separator start i depth (bs ++ r)
      = rangesFrom mode separator start (i + bs.length) depth r := by
  induction bs generalizing i with
  | nil => rfl
  | cons b bs ih =>
    have hb := hidle b (List.mem_cons_self ..)
    rw [List.cons_append, rangesFrom, if_neg (not_not.2 hb.typeNestingStep),
      if_neg fun h => hb.ne hs.1 hs.2 h.1, ih fun c hc => hidle c (List.mem_cons_of_mem _ hc),
      List.length_cons, Nat.add_assoc, Nat.add_comm 1]

/-- The ranges from the one that begins behind `a` on, of which the cells `u` have been read. -/
theorem runs_rangesFrom {separator : Char} (hs : isAscii separator = true ∧ separator ≠ ' ')
    (hsmall : small → width document < countLimit) {r : List Cell} :
    ∀ {a u b : List Cell} {depth : Int32} {exact : Int}, document = a ++ u ++ r ++ b →
      (small → depth.toInt = exact) → exact.natAbs ≤ width (a ++ u) →
      Runs mode small (fun ranges => ∃ piece pieces,
          List.Forall₂ (IsRange document) ranges ((u ++ piece) :: pieces) ∧
          (small → topPiecesFrom Cell.shown separator exact r = piece :: pieces))
        (rangesFrom mode separator (width a) (width (a ++ u)) depth (shownBytes r)) := by
  induction r with
  | nil =>
    intro a u b depth exact hdocument _ _
    refine ⟨[], [], .cons ⟨a, b, by simpa using hdocument, by rw [List.append_nil]⟩ .nil, fun _ => rfl⟩
  | cons x r ih =>
    intro a u b depth exact hdocument hdepth hbound
    have hdocument' : document = a ++ (u ++ [x]) ++ r ++ b := by simp [hdocument]
    have hread : width (a ++ (u ++ [x])) = width (a ++ u) + x.char.utf8Size := by
      rw [← List.append_assoc, width_append _ [x], width_cons, width_nil, Nat.add_zero]
    -- the cell becomes part of the range that is being read
    have hkeep : ∀ {depth' : Int32},
        (small → depth'.toInt = exact + typeNestingStep x.shown) →
        (exact + typeNestingStep x.shown).natAbs ≤ width (a ++ (u ++ [x])) →
        ¬ (small ∧ x.shown = separator ∧ typeNestingStep x.shown = 0 ∧ exact = 0) →
        Runs mode small (fun ranges => ∃ piece pieces,
            List.Forall₂ (IsRange document) ranges ((u ++ piece) :: pieces) ∧
            (small → topPiecesFrom Cell.shown separator exact (x :: r) = piece :: pieces))
          (rangesFrom mode separator (width a) (width (a ++ (u ++ [x]))) depth' (shownBytes r)) := by
      intro depth' hdepth' hbound' hcut
      refine (ih hdocument' hdepth' hbound').imp id ?_
      rintro ranges ⟨piece, pieces, hranges, hpieces⟩
      refine ⟨x :: piece, pieces, by simpa using hranges, fun hs => ?_⟩
      rw [topPiecesFrom_cons_of_ne fun h => hcut ⟨hs, h⟩, hpieces hs]
      rfl
    rcases spread_bytes.alike x with ⟨y, hy, hview⟩ | ⟨hidle, hbs⟩
    · have hone : x.char.utf8Size = 1 := by
        have := length_shownBytes_eq_width [x]
        rw [shownBytes_cons, hy, width_cons] at this
        exact this.symm
      rw [hone] at hread
      rw [shownBytes_cons, hy, List.singleton_append, rangesFrom, hview, ← hread]
      by_cases hstep : typeNestingStep x.shown = 0
      · rw [if_neg (not_not.2 hstep)]
        by_cases hcut : x.shown = separator ∧ depth = 0
        · rw [if_pos hcut]
          have hnext : document = a ++ (u ++ [x]) ++ [] ++ r ++ b := by simp [hdocument]
          have hrest := ih hnext hdepth (by rw [List.append_nil]; omega)
          rw [List.append_nil] at hrest
          refine hrest.bind ?_
          rintro ranges ⟨piece, pieces, hranges, hpieces⟩
          refine ⟨[], piece :: pieces, .cons ⟨a, x :: r ++ b, by simp [hdocument], by simp⟩ hranges,
            fun hs => ?_⟩
          have hexact : exact = 0 := by rw [← hdepth hs, hcut.2, Int32.toInt_zero]
          rw [topPiecesFrom_cons_of_cut ⟨hcut.1, hstep, hexact⟩, hpieces hs]
        · rw [if_neg hcut]
          refine hkeep (by rwa [hstep, Int.add_zero]) (by rw [hstep]; omega) ?_
          rintro ⟨hs, hx, -, rfl⟩
          exact hcut ⟨hx, Int32.toInt_inj.1 (hdepth hs)⟩
      · rw [if_pos hstep]
        have hmove := natAbs_typeNestingStep_le x.shown
        have hfits : small → Fits (depth.toInt + typeNestingStep x.shown) := by
          intro hs
          have hwidth := hsmall hs
          rw [hdocument', width_append, width_append] at hwidth
          rw [hdepth hs]
          exact fits_of_natAbs_lt (by omega)
        refine (runs_count hfits).bind fun depth' hdepth' => ?_
        refine hkeep (fun hs => by rw [hdepth' hs, hdepth hs]) (by omega) fun h => hstep h.2.2.1
    · have hlength : width (a ++ u) + (bytesOf x.masked).length = width (a ++ (u ++ [x])) := by
        have := length_shownBytes_eq_width [x]
        rw [shownBytes_cons, List.length_append, width_cons] at this
        rw [hread]
        exact congrArg (width (a ++ u) + ·) this
      rw [shownBytes_cons, rangesFrom_append_of_idle hs hbs, hlength]
      refine hkeep (by rwa [hidle.typeNestingStep, Int.add_zero])
        (by rw [hidle.typeNestingStep]; omega) fun h => hidle.ne hs.1 hs.2 h.2.1

/-- The ranges between the separators of some cells of a document. -/
theorem runs_splitTopLevel (separator : Char) (hs : isAscii separator = true ∧ separator ≠ ' ')
    (hsmall : small → width document < countLimit) {s : List Cell} {range : Nat × Nat}
    (hrange : IsRange document range s) :
    Runs mode small (fun ranges => ∃ pieces, pieces ≠ [] ∧
        List.Forall₂ (IsRange document) ranges pieces ∧
        (small → pieces = topPieces Cell.shown separator s))
      (splitTopLevel mode (shownBytes document) range.1 range.2 separator) := by
  obtain ⟨a, b, hdocument, rfl⟩ := hrange
  have hslice := sliceBytes_shownBytes a s b
  rw [← hdocument] at hslice
  have hstart : document = a ++ [] ++ s ++ b := by rw [List.append_nil, hdocument]
  have hranges : Runs mode small _
      (rangesFrom mode separator (width a) (width (a ++ [])) 0 (shownBytes s)) :=
    runs_rangesFrom hs hsmall hstart (fun _ => Int32.toInt_zero) (Nat.zero_le _)
  rw [List.append_nil] at hranges
  rw [splitTopLevel, hslice]
  refine Runs.imp hranges id ?_
  rintro ranges ⟨piece, pieces, hranges, hpieces⟩
  exact ⟨piece :: pieces, List.cons_ne_nil _ _, hranges, fun hs => (hpieces hs).symm⟩

end Counts

end ConnectorCatalog.Offset
