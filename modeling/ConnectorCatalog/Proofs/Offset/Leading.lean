import ConnectorCatalog.Offset.Leading
import ConnectorCatalog.Proofs.Cut
import ConnectorCatalog.Proofs.Offset.Cells
import ConnectorCatalog.Proofs.Offset.Counter

/-!
# Lines by number

The source and the masked text have the same lines, up to any cut of the document
(`cutAll_masked`), so the line with a number is there in both. Walking up by line numbers ends and
never leaves the lists, whatever the braces count to, and in a document of fewer than two to the power
31 bytes it finds what stands above a definition (`runs_leadingMetadata`).
-/

namespace ConnectorCatalog

/-- The lines of some cells. -/
def linesOf (s : List Cell) : List (List Cell) := cutAll (fun x => x.char == '\n') s

theorem cutAll_chars (s : List Cell) : cutAll (· == '\n') (chars s) = (linesOf s).map chars := by
  have hchars : ∀ s : List Cell, chars s = s.flatMap fun x => [x.char] := by
    intro s
    rw [chars, List.map_eq_flatMap]
  have hfun : chars = fun s => s.flatMap fun x => [x.char] := funext hchars
  rw [hfun, linesOf]
  exact cutAll_flatMap (fun x _ hx => ⟨x.char, rfl, hx⟩)
    fun x _ hx y hy => by rwa [List.mem_singleton.1 hy]

/-- Masking leaves the lines. -/
theorem cutAll_masked {s : List Cell} (hs : ∀ x ∈ s, x.char = '\n' → x.isCode = true) :
    cutAll (· == '\n') (masked s) = (linesOf s).map masked := by
  refine cutAll_flatMap (fun x hx hn => ⟨x.char, ?_, hn⟩) fun x hx hn y hy => ?_
  · rw [Cell.masked, hs x hx (beq_iff_eq.1 hn)]
    rfl
  · rw [Cell.masked] at hy
    split at hy
    · rwa [List.mem_singleton.1 hy]
    · rw [List.eq_of_mem_replicate hy]
      rfl

namespace Leading

/-- The walk at a line that is part of an annotation, the lines in `block` being below it. -/
def inBlock (block : List (List Cell)) (braces : Int) (line : List Cell) (up : List (List Cell)) :
    Leading :=
  if braces + unopened line ≤ 0 ∨ up = [] then
    if braces + unopened line = 0 ∧ startsAnnotated line then
      { above [] 0 up with
        annotations := (above [] 0 up).annotations ++ (line :: block).map chars }
    else empty
  else above (line :: block) (braces + unopened line) up

theorem above_cons_of_block {block : List (List Cell)} (hblock : block.isEmpty = false)
    (braces : Int) (line : List Cell) (up : List (List Cell)) :
    above block braces (line :: up) = inBlock block braces line up := by
  rw [above, hblock]
  rfl

theorem above_cons_of_blank {line : List Cell} (h : isBlankLine line = true)
    (up : List (List Cell)) : above [] 0 (line :: up) = above [] 0 up := by
  rw [above, h]
  rfl

theorem above_cons_of_documentation {line : List Cell} {text : List Char}
    (hblank : isBlankLine line = false) (h : documentation? line = some text)
    (up : List (List Cell)) :
    above [] 0 (line :: up)
      = { above [] 0 up with documentation := (above [] 0 up).documentation ++ [text] } := by
  rw [above, hblank]
  simp only [List.isEmpty_nil, Bool.and_false, Bool.false_eq_true, if_false, if_true, h]

theorem above_cons_of_mark {line : List Cell} (hblank : isBlankLine line = false)
    (h : documentation? line = none) (up : List (List Cell)) :
    above [] 0 (line :: up) = inBlock [] 0 line up := by
  rw [above, hblank]
  simp only [List.isEmpty_nil, Bool.and_false, Bool.false_eq_true, if_false, if_true, h]
  rfl

end Leading

namespace Offset

/-- Closing braces of a masked line less its opening braces. -/
def bracesOf (line : List Char) : Int := line.count '\x7d' - line.count '\x7b'

/-- Braces are counted alike in a line and in its masked text. -/
theorem bracesOf_masked (line : List Cell) : bracesOf (masked line) = Leading.unopened line := by
  induction line with
  | nil => rfl
  | cons x line ih =>
    have hcons : bracesOf (masked (x :: line)) = bracesOf x.masked + bracesOf (masked line) := by
      rw [masked, List.flatMap_cons, ← masked, bracesOf, bracesOf, bracesOf, List.count_append,
        List.count_append]
      omega
    rw [hcons, ih, Leading.unopened]
    congr 1
    cases hx : x.isCode with
    | false =>
      rw [Cell.shown_of_not_isCode hx, Cell.masked, hx, if_neg Bool.false_ne_true, bracesOf,
        List.count_replicate, List.count_replicate]
      rfl
    | true =>
      rw [Cell.masked, Cell.shown, hx, if_pos rfl, if_pos rfl, bracesOf, List.count_singleton,
        List.count_singleton]
      by_cases h1 : x.char = '\x7d'
      · rw [h1]
        rfl
      · by_cases h2 : x.char = '\x7b'
        · rw [h2]
          rfl
        · simp [h1, h2]

section Walk

variable {mode : Overflow} {small : Prop} {lines : List (List Cell)}

theorem count_masked_le (c : Char) (line : List Cell) : (masked line).count c ≤ width line := by
  have hle : (masked line).length ≤ byteLength (masked line) := by
    induction masked line with
    | nil => exact Nat.le_refl 0
    | cons d t ih =>
      have := d.utf8Size_pos
      rw [List.length_cons, byteLength_cons]
      omega
  rw [byteLength_masked] at hle
  exact Nat.le_trans List.count_le_length hle

theorem natAbs_unopened_le (line : List Cell) : (Leading.unopened line).natAbs ≤ width line := by
  have hclosings := count_masked_le '\x7d' line
  have hopenings := count_masked_le '\x7b' line
  rw [← bracesOf_masked, bracesOf]
  omega

theorem runs_countBraces {braces : Int32} {exact : Int} {line : List Cell}
    (hbraces : small → braces.toInt = exact)
    (hbound : small → exact.natAbs + width line < countLimit) :
    Runs mode small (fun braces => small → braces.toInt = exact + Leading.unopened line)
      (countBraces mode braces (masked line)) := by
  have hcount : ∀ c, small →
      (Int32.ofNat ((masked line).count c)).toInt = ((masked line).count c : Int) := by
    intro c hs
    have := count_masked_le c line
    have := hbound hs
    rw [← Int32.ofInt_eq_ofNat, toInt_ofInt (fits_of_natAbs_lt (by omega))]
  have hclosings := count_masked_le '\x7d' line
  have hopenings := count_masked_le '\x7b' line
  refine (runs_count fun hs => ?_).bind fun opened hopened =>
    (runs_count fun hs => ?_).imp id fun left hleft hs => ?_
  · have := hbound hs
    rw [hbraces hs, hcount _ hs]
    exact fits_of_natAbs_lt (by omega)
  · have := hbound hs
    rw [hopened hs, hbraces hs, hcount _ hs, hcount _ hs]
    exact fits_of_natAbs_lt (by omega)
  · rw [hleft hs, hopened hs, hbraces hs, hcount _ hs, hcount _ hs, ← bracesOf_masked, bracesOf]
    omega

/-- How many bytes some lines take. -/
def widths (lines : List (List Cell)) : Nat := width lines.flatten

theorem widths_append (a b : List (List Cell)) : widths (a ++ b) = widths a + widths b := by
  rw [widths, List.flatten_append, width_append, widths, widths]

theorem widths_singleton (line : List Cell) : widths [line] = width line := by
  rw [widths, List.flatten_singleton]

theorem widths_take_le (i : Nat) (lines : List (List Cell)) : widths (lines.take i) ≤ widths lines := by
  have := widths_append (lines.take i) (lines.drop i)
  rw [List.take_append_drop] at this
  omega

theorem width_filter_le (p : Cell → Bool) (s : List Cell) : width (s.filter p) ≤ width s := by
  induction s with
  | nil => exact Nat.le_refl 0
  | cons x s ih =>
    rw [List.filter_cons, width_cons]
    split
    · rw [width_cons]
      omega
    · omega

/-- The lines of some cells take no more bytes than these. -/
theorem widths_linesOf_le (s : List Cell) : widths (linesOf s) ≤ width s := by
  rw [widths, linesOf, flatten_cutAll]
  exact width_filter_le _ s

theorem elementAt_map {α : Type} {i : Nat} {line : List Cell} (h : lines[i]? = some line)
    (f : List Cell → α) : elementAt (lines.map f) i = .ok (f line) := by
  rw [elementAt, List.getElem?_map, h]
  rfl

theorem take_succ_of_some {i : Nat} {line : List Cell} (h : lines[i]? = some line) :
    lines.take (i + 1) = lines.take i ++ [line] := by
  obtain ⟨hi, rfl⟩ := List.getElem?_eq_some_iff.1 h
  exact List.take_succ_eq_append_getElem hi

theorem reverse_take_succ {i : Nat} {line : List Cell} (h : lines[i]? = some line) :
    (lines.take (i + 1)).reverse = line :: (lines.take i).reverse := by
  rw [take_succ_of_some h, List.reverse_append, List.reverse_singleton, List.singleton_append]

/-- The block of an annotation that was walked over ends at a line that is there, and at the line found
by number if counts are small. -/
theorem runs_blockTop : ∀ {i : Nat} {line : List Cell}, lines[i]? = some line →
    ∀ {braces : Int32} {exact : Int} (block : List (List Cell)), (small → braces.toInt = exact) →
    (small → exact.natAbs + widths (lines.take (i + 1)) < countLimit) →
    Runs mode small (fun found => ∃ topLine, lines[found.2.1]? = some topLine ∧
        (small → Leading.inBlock block exact line (lines.take i).reverse
          = if found.1 = 0 ∧ Leading.startsAnnotated topLine then
            { Leading.above [] 0 (lines.take found.2.1).reverse with
              annotations := (Leading.above [] 0 (lines.take found.2.1).reverse).annotations
                ++ (((lines.take (i + 1)).drop found.2.1) ++ block).map chars }
          else Leading.empty))
      (blockTop mode (lines.map masked) i braces)
  | 0, line, hline, braces, exact, block, hbraces, hbound => by
    rw [blockTop, elementAt_map hline]
    refine (runs_countBraces hbraces fun hs => ?_).bind fun rest hrest => ⟨line, hline, fun hs => ?_⟩
    · have := hbound hs
      rw [take_succ_of_some hline, widths_append, widths_singleton] at this
      omega
    · have hzero : rest = 0 ↔ exact + Leading.unopened line = 0 := by
        rw [← hrest hs, ← Int32.toInt_inj, Int32.toInt_zero]
      rw [Leading.inBlock, if_pos (.inr rfl), take_succ_of_some hline]
      simp only [hzero]
      rfl
  | i + 1, line, hline, braces, exact, block, hbraces, hbound => by
    obtain ⟨hi, -⟩ := List.getElem?_eq_some_iff.1 hline
    obtain ⟨above, habove⟩ : ∃ above, lines[i]? = some above :=
      ⟨_, List.getElem?_eq_getElem (Nat.lt_of_succ_lt hi)⟩
    have hlen : (lines.take (i + 1)).length = i + 1 := by
      rw [List.length_take]
      omega
    have hblock : ∀ top ≤ i + 1, (lines.take (i + 2)).drop top
        = (lines.take (i + 1)).drop top ++ [line] := by
      intro top htop
      rw [take_succ_of_some hline, List.drop_append_of_le_length (by omega)]
    have hwidths : widths (lines.take (i + 1 + 1)) = widths (lines.take (i + 1)) + width line := by
      rw [take_succ_of_some hline, widths_append, widths_singleton]
    have hmove := natAbs_unopened_le line
    rw [blockTop, elementAt_map hline]
    refine (runs_countBraces hbraces fun hs => ?_).bind fun rest hrest => ?_
    · have := hbound hs
      omega
    · have hle : small → (rest ≤ 0 ↔ exact + Leading.unopened line ≤ 0) := by
        intro hs
        rw [← hrest hs, Int32.le_iff_toInt_le, Int32.toInt_zero]
      have hzero : small → (rest = 0 ↔ exact + Leading.unopened line = 0) := by
        intro hs
        rw [← hrest hs, ← Int32.toInt_inj, Int32.toInt_zero]
      dsimp only
      by_cases hstop : rest ≤ 0
      · rw [if_pos hstop]
        refine ⟨line, hline, fun hs => ?_⟩
        rw [Leading.inBlock, if_pos (.inl ((hle hs).1 hstop)), hblock _ (Nat.le_refl _),
          List.drop_eq_nil_of_le (Nat.le_of_eq hlen)]
        simp only [hzero hs]
        rfl
      · rw [if_neg hstop]
        have hup : (lines.take (i + 1)).reverse ≠ [] := by
          rw [reverse_take_succ habove]
          exact List.cons_ne_nil _ _
        refine (runs_blockTop habove (line :: block) hrest fun hs => ?_).bind ?_
        · have := hbound hs
          omega
        · rintro ⟨last, top⟩ ⟨topLine, htop, heq⟩
          refine ⟨topLine, htop, fun hs => ?_⟩
          rw [Leading.inBlock, if_neg (by simp only [← hle hs, hstop, hup, or_self, not_false_eq_true]),
            reverse_take_succ habove, Leading.above_cons_of_block rfl, heq hs]
          dsimp only
          rw [hblock _ (Nat.le_succ_of_le top.2), List.append_assoc]
          rfl

/-- Walking up by number stays in the lists, and gives what walking up the lines gives if counts are
small. -/
theorem runs_walkUp (hsmall : small → widths lines < countLimit) {i : Nat} (hi : i ≤ lines.length) :
    Runs mode small (fun found => small → found = Leading.above [] 0 (lines.take i).reverse)
      (walkUp mode (lines.map chars) (lines.map masked) i) := by
  -- past an annotation the walk goes on above its first line, so the induction is a strong one
  induction i using Nat.strongRecOn with
  | _ i ih =>
    cases i with
    | zero =>
      rw [walkUp]
      exact fun _ => rfl
    | succ i =>
      obtain ⟨line, hline⟩ : ∃ line, lines[i]? = some line := ⟨_, List.getElem?_eq_getElem hi⟩
      have hnext := ih i (Nat.lt_succ_self i) (by omega)
      rw [walkUp, elementAt_map hline, reverse_take_succ hline]
      change Runs mode small _ (ite _ _ _)
      cases hblank : Leading.isBlankLine line with
      | true =>
        have hshown : (trim (chars line)).isEmpty = true := hblank
        rw [Leading.above_cons_of_blank hblank, if_pos hshown]
        exact hnext
      | false =>
        have hshown : (trim (chars line)).isEmpty = false := hblank
        rw [hshown, if_neg Bool.false_ne_true]
        cases hdoc : Leading.textAfterMark? (trim (chars line)) with
        | some text =>
          rw [Leading.above_cons_of_documentation hblank hdoc]
          exact hnext.bind fun rest hrest hs => by rw [hrest hs]
        | none =>
          rw [Leading.above_cons_of_mark hblank hdoc]
          refine (runs_blockTop hline [] (fun _ => Int32.toInt_zero) fun hs => ?_).bind ?_
          · have := hsmall hs
            have := widths_take_le (i + 1) lines
            rw [Int.natAbs_zero]
            omega
          · rintro ⟨rest, top, htop⟩ ⟨topLine, htopLine, heq⟩
            have hslice : sliceList (lines.map chars) top (i + 1)
                = .ok (((lines.take (i + 1)).drop top).map chars) := by
              rw [sliceList, List.length_map, if_neg (by omega), ← List.map_take, ← List.map_drop]
            simp only [Leading.startsAnnotated, beq_iff_eq] at heq
            simp only [elementAt_map htopLine]
            change Runs mode small _ (ite _ _ _)
            by_cases hfound : rest = 0 ∧ (trimStart (chars topLine)).head? = some '@'
            · rw [if_pos hfound, hslice]
              refine (ih top (by omega) (by omega)).bind fun found hfoundAbove hs => ?_
              rw [heq hs, if_pos hfound, hfoundAbove hs, List.append_nil]
            · rw [if_neg hfound]
              exact fun hs => by rw [heq hs, if_neg hfound]

end Walk

/-- Walking up from an offset gives what stands above the definition there. -/
theorem runs_leadingMetadata {mode : Overflow} {small : Prop} {a b : List Cell}
    (hsmall : small → width (a ++ b) < countLimit) (ha : ∀ x ∈ a, x.char = '\n' → x.isCode = true) :
    Runs mode small (fun found => small → found = Leading.ofBefore a)
      (leadingMetadata mode (chars (a ++ b)) (masked (a ++ b)) (width a)) := by
  have hsource := slice_chars [] a b
  have hmasked := slice_masked [] a b
  rw [List.nil_append, width_nil] at hsource hmasked
  have hne : linesOf a ≠ [] := cutAll_ne_nil _ a
  obtain ⟨up, last, hlines⟩ := (List.eq_nil_or_concat' (linesOf a)).resolve_left hne
  rw [leadingMetadata, hsource, hmasked]
  simp only [bind, Except.bind, cutAll_chars, cutAll_masked ha, List.length_map]
  rw [if_neg (fun h => h rfl), Leading.ofBefore]
  have hlast : up.length < (linesOf a).length := by rw [hlines]; simp
  have hpred : predecessor (linesOf a).length = .ok up.length := by rw [hlines]; simp [predecessor]
  have hget : (linesOf a)[up.length]? = some last := by rw [hlines, List.getElem?_concat_length]
  have htake : (linesOf a).take up.length = up := by rw [hlines, List.take_left]
  have hwidths : small → widths (linesOf a) < countLimit := by
    intro hs
    have hwidth := hsmall hs
    rw [width_append] at hwidth
    exact Nat.lt_of_le_of_lt (widths_linesOf_le a) (Nat.lt_of_le_of_lt (Nat.le_add_right _ _) hwidth)
  have hwalk : Runs mode small _ (walkUp mode _ _ _) := runs_walkUp hwidths (Nat.le_of_lt hlast)
  rw [htake] at hwalk
  rw [hpred]
  simp only [elementAt_map hget]
  rw [show cutAll (fun x : Cell => x.char == '\n') a = up ++ [last] from hlines,
    List.reverse_append, List.reverse_singleton, List.singleton_append]
  by_cases hblank : (trim (chars last)).isEmpty = true
  · rw [if_pos hblank]
    refine hwalk.imp id fun found hfound hs => ?_
    rw [hfound hs]
    exact (if_pos hblank).symm
  · rw [if_neg hblank]
    exact fun _ => (if_neg hblank).symm

end Offset

end ConnectorCatalog
