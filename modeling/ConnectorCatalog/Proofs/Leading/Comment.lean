import ConnectorCatalog.Proofs.Leading
import Mathlib.Data.List.TakeWhile

/-!
# What stands above a definition behind a line comment

A comment makes two lines of the one it is put into, so a walk up from a definition further down
comes through two lines where it came through one. It has as many braces to find there as are open
at the place. If these are none, the walk goes no further than a walk up from the place itself, and
finds no documentation if that does not (`documentation_seam`). If they are some, it goes on above
the place with the same braces (`above_seam`).
-/

namespace ConnectorCatalog.Leading

/-- The first character of a line that is not blank. -/
def mark? (line : List Cell) : Option Char := (chars line).find? fun c => !isBlank c

theorem head?_trimStart (s : List Char) : (trimStart s).head? = s.find? fun c => !isBlank c := by
  rw [List.find?_eq_head?_dropWhile_not]
  simp [trimStart]

theorem mark?_append (a b : List Cell) : mark? (a ++ b) = (mark? a).or (mark? b) := by
  rw [mark?, chars, List.map_append, List.find?_append]
  rfl

theorem isBlankLine_iff {line : List Cell} : isBlankLine line = true ↔ mark? line = none := by
  rw [isBlankLine, mark?, ← head?_trimStart, ← head?_trim, List.isEmpty_iff, List.head?_eq_none_iff]

theorem isDocumentation_iff {line : List Cell} :
    isDocumentation line = true ↔ mark? line = some '#' := by
  rw [mark?, ← head?_trimStart, ← head?_trim]
  refine ⟨fun h => ?_, fun h => ?_⟩
  · by_contra hne
    rw [isDocumentation_eq_false hne] at h
    cases h
  · obtain ⟨text, htext⟩ := List.head?_eq_some_iff.1 h
    rw [isDocumentation, documentation?, htext]
    unfold textAfterMark?
    split <;> first | rfl | simp_all

theorem startsAnnotated_iff {line : List Cell} :
    startsAnnotated line = true ↔ mark? line = some '@' := by
  rw [startsAnnotated, mark?, ← head?_trimStart, beq_iff_eq]

/-- Blanks are no braces. -/
theorem unopened_of_blank {s : List Cell} (h : ∀ x ∈ s, x.isBlankCode = true) : unopened s = 0 :=
  unopened_of_braceless fun x hx =>
    ⟨shown_ne_of_isBlankCode (h x hx) (by decide), shown_ne_of_isBlankCode (h x hx) (by decide)⟩

theorem unopened_of_isBlankLine {line : List Cell} (h : isBlankLine line = true) :
    unopened line = 0 := by
  refine unopened_of_blank fun x hx => ?_
  have hblank : isBlank x.char = true := by
    by_contra hblank
    rw [isBlankLine_eq_false hx (Bool.not_eq_true _ ▸ hblank)] at h
    cases h
  rw [Cell.isBlankCode, Cell.shown]
  split
  · exact hblank
  · rfl

section Walk

theorem inBlock_of_pos {block : List (List Cell)} {braces : Int} {line : List Cell}
    {up : List (List Cell)} (h : 0 < braces + unopened line) (hup : up ≠ []) :
    inBlock block braces line up = above (line :: block) (braces + unopened line) up :=
  if_neg (not_or.2 ⟨Int.not_le.2 h, hup⟩)

theorem inBlock_of_nonpos {block : List (List Cell)} {braces : Int} {line : List Cell}
    (h : braces + unopened line ≤ 0) (up : List (List Cell)) :
    inBlock block braces line up = if braces + unopened line = 0 ∧ startsAnnotated line then
      { above [] 0 up with
        annotations := (above [] 0 up).annotations ++ (line :: block).map chars }
      else empty :=
  if_pos (.inl h)

/-- A relation of findings that a walk keeps as it goes down the lines. -/
structure Kept (R : Leading → Leading → Prop) : Prop where
  empty : R empty empty
  documented : ∀ {l l'} (text : List Char), R l l' →
    R { l with documentation := l.documentation ++ [text] }
      { l' with documentation := l'.documentation ++ [text] }
  annotated : ∀ {l l'} (block : List (List Char)), R l l' →
    R { l with annotations := l.annotations ++ block }
      { l' with annotations := l'.annotations ++ block }

theorem kept_eq : Kept (· = ·) where
  empty := rfl
  documented := by
    rintro l _ text rfl
    rfl
  annotated := by
    rintro l _ block rfl
    rfl

theorem kept_documentation : Kept fun l l' => l.documentation = l'.documentation where
  empty := rfl
  documented := fun text h => congrArg (· ++ [text]) h
  annotated := fun _ h => h

/-- The state of a walk: it has braces to find exactly inside of an annotation. -/
def IsState (block : List (List Cell)) (braces : Int) : Prop :=
  (block = [] → braces = 0) ∧ (block ≠ [] → 0 < braces)

theorem isState_nil : IsState [] 0 := ⟨fun _ => rfl, fun h => absurd rfl h⟩

theorem isState_cons {line : List Cell} {block : List (List Cell)} {braces : Int}
    (h : 0 < braces) : IsState (line :: block) braces :=
  ⟨fun h => (List.cons_ne_nil _ _ h).elim, fun _ => h⟩

/-- Walks that find the same from two places on, with as many braces to find there as the lines
below leave, find the same. -/
theorem Kept.above_append {R : Leading → Leading → Prop} (hR : Kept R)
    {up up' : List (List Cell)} (hup : up ≠ []) (hup' : up' ≠ []) {n : Int}
    (hseam : ∀ block, IsState block n → R (above block n up) (above block n up')) :
    ∀ (lines block : List (List Cell)) (braces : Int), IsState block braces →
      (∀ line ∈ lines, isDocumentation line = true → unopened line = 0) →
      braces + unopenedIn lines = n →
      R (above block braces (lines ++ up)) (above block braces (lines ++ up'))
  | [], block, braces, hstate, _, hn => by
    obtain rfl : braces = n := by simpa [unopenedIn] using hn
    exact hseam block hstate
  | line :: lines, block, braces, hstate, hdocs, hn => by
    rw [List.forall_mem_cons] at hdocs
    have ih := fun block braces hstate hn =>
      hR.above_append hup hup' hseam lines block braces hstate hdocs.2 hn
    have hwalk : R (inBlock block braces line (lines ++ up))
        (inBlock block braces line (lines ++ up')) := by
      rw [unopenedIn, ← Int.add_assoc] at hn
      by_cases hstop : braces + unopened line ≤ 0
      · rw [inBlock_of_nonpos hstop, inBlock_of_nonpos hstop]
        by_cases hmark : braces + unopened line = 0 ∧ startsAnnotated line = true
        · rw [if_pos hmark, if_pos hmark]
          exact hR.annotated _ (ih [] 0 isState_nil (by omega))
        · rw [if_neg hmark, if_neg hmark]
          exact hR.empty
      · have hpos := Int.not_le.1 hstop
        rw [inBlock_of_pos hpos (List.append_ne_nil_of_right_ne_nil _ hup),
          inBlock_of_pos hpos (List.append_ne_nil_of_right_ne_nil _ hup')]
        exact ih _ _ (isState_cons hpos) hn
    rw [List.cons_append, List.cons_append]
    rcases block.eq_nil_or_concat' with rfl | ⟨upper, last, rfl⟩
    · obtain rfl := hstate.1 rfl
      rcases hblank : isBlankLine line with _ | _
      · rcases hdoc : documentation? line with _ | text
        · rwa [above_cons_of_mark hblank hdoc, above_cons_of_mark hblank hdoc]
        · have hline := hdocs.1 (by rw [isDocumentation, hdoc, Option.isSome_some])
          rw [unopenedIn, hline, Int.zero_add] at hn
          rw [above_cons_of_documentation hblank hdoc, above_cons_of_documentation hblank hdoc]
          exact hR.documented text (ih [] 0 isState_nil hn)
      · have hline := unopened_of_isBlankLine hblank
        rw [unopenedIn, hline, Int.zero_add] at hn
        rw [above_cons_of_blank hblank, above_cons_of_blank hblank]
        exact ih [] 0 isState_nil hn
    · have hblock : (upper ++ [last]).isEmpty = false := by simp
      rwa [above_cons_of_block hblock, above_cons_of_block hblock]

/-- Findings with the same documentation, both with annotations or both without any. -/
def Agree (l l' : Leading) : Prop :=
  l.documentation = l'.documentation ∧ (l.annotations = [] ↔ l'.annotations = [])

theorem Agree.eq_empty {l l' : Leading} (h : Agree l l') (hl : l' = empty) : l = empty := by
  subst hl
  obtain ⟨documentation, annotations⟩ := l
  obtain ⟨rfl, hannotations⟩ := h
  exact congrArg _ (hannotations.2 rfl)

/-- Of the lines of an annotation that the walk has passed only the braces count. -/
theorem agree_inBlock : ∀ (up : List (List Cell)) {block block' : List (List Cell)}
    {braces braces' : Int} {line line' : List Cell},
    braces + unopened line = braces' + unopened line' →
    (braces' + unopened line' = 0 → startsAnnotated line = startsAnnotated line') →
    Agree (inBlock block braces line up) (inBlock block' braces' line' up)
  | up, block, block', braces, braces', line, line', hsum, hmark => by
    by_cases hstop : braces' + unopened line' ≤ 0 ∨ up = []
    · rw [inBlock, inBlock, hsum, if_pos hstop, if_pos hstop]
      by_cases hzero : braces' + unopened line' = 0 ∧ startsAnnotated line' = true
      · rw [if_pos hzero, if_pos (hmark hzero.1 ▸ hzero)]
        simp [Agree]
      · rw [if_neg hzero, if_neg fun h : _ ∧ _ => hzero (hmark h.1 ▸ h)]
        exact ⟨rfl, Iff.rfl⟩
    · rcases up with _ | ⟨next, up⟩
      · simp at hstop
      · rw [inBlock, inBlock, hsum, if_neg hstop, if_neg hstop, above_cons_of_block rfl,
          above_cons_of_block rfl]
        exact agree_inBlock up rfl fun _ => rfl

/-- A line that is neither blank nor documentation is part of an annotation or ends the walk. -/
theorem above_cons_of_state {block : List (List Cell)} {braces : Int} (hstate : IsState block braces)
    {line : List Cell} (hline : block = [] → mark? line ≠ none ∧ mark? line ≠ some '#')
    (up : List (List Cell)) : above block braces (line :: up) = inBlock block braces line up := by
  cases block with
  | nil =>
    obtain rfl := hstate.1 rfl
    obtain ⟨hblank, hdoc⟩ := hline rfl
    rw [Ne, ← isBlankLine_iff, Bool.not_eq_true] at hblank
    rw [Ne, ← isDocumentation_iff, isDocumentation, Option.not_isSome_iff_eq_none] at hdoc
    exact above_cons_of_mark hblank hdoc up
  | cons line block => exact above_cons_of_block rfl braces _ up

end Walk

section Seam

variable {front : List Cell} {up : List (List Cell)}

/-- A line above which no documentation is found is none itself. -/
theorem mark?_ne_of_documentation (hfront : (above [] 0 (front :: up)).documentation = []) :
    mark? front ≠ some '#' := by
  intro hmark
  have hdoc := isDocumentation_iff.2 hmark
  obtain ⟨text, htext⟩ := Option.isSome_iff_exists.1 hdoc
  rw [above_cons_of_documentation (isBlankLine_of_isDocumentation hdoc) htext] at hfront
  simp at hfront

/-- Where all braces are found at a place, no documentation is found above its line if none is found
from the place up. -/
theorem documentation_inBlock (hfront : (above [] 0 (front :: up)).documentation = [])
    {line : List Cell} {block : List (List Cell)} {braces : Int}
    (hsum : braces + unopened line = unopened front)
    (hmark : mark? front ≠ none → mark? line = mark? front) :
    (inBlock block braces line up).documentation = [] := by
  cases hblank : isBlankLine front with
  | true =>
    rw [above_cons_of_blank hblank] at hfront
    rw [unopened_of_isBlankLine hblank] at hsum
    rw [inBlock_of_nonpos (by omega)]
    split
    · exact hfront
    · rfl
  | false =>
    have hnone : mark? front ≠ none := fun h => by
      rw [isBlankLine_iff.2 h] at hblank
      cases hblank
    rw [above_cons_of_state isState_nil fun _ => ⟨hnone, mark?_ne_of_documentation hfront⟩] at hfront
    rw [← hfront]
    refine (agree_inBlock up (by omega) fun _ => ?_).1
    rw [Bool.eq_iff_iff, startsAnnotated_iff, startsAnnotated_iff, hmark hnone]

theorem mark?_append_of_mark {a : List Cell} (ha : mark? a ≠ none) (b : List Cell) :
    mark? (a ++ b) = mark? a := by
  rw [mark?_append]
  cases h : mark? a with
  | none => exact absurd h ha
  | some c => rfl

/-- The cells of a line comment up to its line break. -/
structure IsRemark (s : List Cell) : Prop where
  blank : ∀ x ∈ s, x.isBlankCode = true
  slash : mark? s = some '/'
  inLine : ∀ x ∈ s, x.char ≠ '\n'

/-- A line that a comment ends is passed over like the part of it in front of the comment. -/
theorem IsRemark.documentation_above {remark : List Cell} (h : IsRemark remark)
    (hfront : (above [] 0 (front :: up)).documentation = []) :
    (above [] 0 ((front ++ remark) :: up)).documentation = [] := by
  rw [above_cons_of_state isState_nil fun _ => ?_]
  · refine documentation_inBlock hfront ?_ fun hmark => mark?_append_of_mark hmark remark
    rw [unopened_append, unopened_of_blank h.blank, Int.zero_add, Int.add_zero]
  · rw [mark?_append, h.slash]
    cases hmark : mark? front with
    | none => simp
    | some c =>
      rw [Option.some_or, ← hmark]
      exact ⟨by simp [hmark], mark?_ne_of_documentation hfront⟩

variable {behind remark : List Cell} (hbehind : isDocumentation behind = false)

include hbehind

theorem mark?_line_ne (hfront : (above [] 0 (front :: up)).documentation = []) :
    mark? (front ++ behind) ≠ some '#' := by
  rw [mark?_append]
  cases h : mark? front with
  | none =>
    rw [Option.none_or, Ne, ← isDocumentation_iff, hbehind]
    exact Bool.false_ne_true
  | some c =>
    rw [Option.some_or, ← h]
    exact mark?_ne_of_documentation hfront

/-- With no braces open at the place, no documentation is found there. -/
theorem documentation_seam (hremark : IsRemark remark)
    (hfront : (above [] 0 (front :: up)).documentation = []) {block : List (List Cell)}
    {braces : Int} (hstate : IsState block braces) (hsum : braces + unopened behind = 0) :
    (above block braces ((front ++ behind) :: up)).documentation = [] ∧
      (above block braces (behind :: (front ++ remark) :: up)).documentation = [] := by
  constructor
  · by_cases hline : block = [] → mark? (front ++ behind) ≠ none
    · rw [above_cons_of_state hstate fun h => ⟨hline h, mark?_line_ne hbehind hfront⟩]
      refine documentation_inBlock hfront ?_ fun h => mark?_append_of_mark h behind
      rw [unopened_append]
      omega
    · obtain ⟨rfl, hnone⟩ := Classical.not_imp.1 hline
      have hblank := isBlankLine_iff.2 (not_not.1 hnone)
      rw [not_not, mark?_append, Option.or_eq_none_iff] at hnone
      obtain rfl := hstate.1 rfl
      rw [above_cons_of_blank (isBlankLine_iff.2 hnone.1)] at hfront
      rwa [above_cons_of_blank hblank]
  · have hfound := hremark.documentation_above hfront
    by_cases hline : block = [] → mark? behind ≠ none
    · rw [above_cons_of_state hstate fun h => ⟨hline h, fun hmark => ?_⟩,
        inBlock_of_nonpos (Int.le_of_eq hsum)]
      · split
        · exact hfound
        · rfl
      · rw [isDocumentation_iff.2 hmark] at hbehind
        cases hbehind
    · obtain ⟨rfl, hnone⟩ := Classical.not_imp.1 hline
      obtain rfl := hstate.1 rfl
      rwa [above_cons_of_blank (isBlankLine_iff.2 (not_not.1 hnone))]

/-- With braces open at the place, a walk goes on above it as one from the place up. -/
theorem agree_seam (hremark : IsRemark remark)
    (hfront : (above [] 0 (front :: up)).documentation = []) {block : List (List Cell)}
    {braces : Int} (hstate : IsState block braces) (hsum : 0 < braces + unopened behind) :
    Agree (above block braces ((front ++ behind) :: up))
        (above [[]] (braces + unopened behind) (front :: up)) ∧
      Agree (above block braces (behind :: (front ++ remark) :: up))
        (above [[]] (braces + unopened behind) (front :: up)) := by
  have hmark : block = [] → mark? behind ≠ none := by
    rintro rfl hnone
    rw [hstate.1 rfl, unopened_of_isBlankLine (isBlankLine_iff.2 hnone)] at hsum
    omega
  -- whether the line begins an annotation is seen in front of the place, or does not count
  have hagree : ∀ {line : List Cell} {block : List (List Cell)} {braces' : Int},
      braces' + unopened line = braces + unopened behind + unopened front →
      (mark? front ≠ none → mark? line = mark? front) →
      Agree (inBlock block braces' line up)
        (above [[]] (braces + unopened behind) (front :: up)) := by
    intro line block braces' hbraces hmark
    rw [above_cons_of_block rfl]
    refine agree_inBlock up hbraces fun hzero => ?_
    rw [Bool.eq_iff_iff, startsAnnotated_iff, startsAnnotated_iff, hmark fun hnone => ?_]
    rw [unopened_of_isBlankLine (isBlankLine_iff.2 hnone)] at hzero
    omega
  constructor
  · rw [above_cons_of_state hstate fun h => ⟨fun hnone => ?_, mark?_line_ne hbehind hfront⟩]
    · refine hagree ?_ fun h => mark?_append_of_mark h behind
      rw [unopened_append]
      omega
    · rw [mark?_append, Option.or_eq_none_iff] at hnone
      exact hmark h hnone.2
  · rw [above_cons_of_state hstate fun h => ⟨hmark h, fun hhash => ?_⟩,
      inBlock_of_pos hsum (List.cons_ne_nil _ _), above_cons_of_block rfl]
    · refine hagree ?_ fun h => mark?_append_of_mark h remark
      rw [unopened_append, unopened_of_blank hremark.blank, Int.add_zero]
    · rw [isDocumentation_iff.2 hhash] at hbehind
      cases hbehind

end Seam

section Before

variable {front remark behind : List Cell} {x : Cell}

/-- A remark and its line break make two lines of the one they are put into. -/
theorem IsRemark.linesOf_insert (hremark : IsRemark remark) (hx : x.char = '\n')
    {up rest : List (List Cell)} {line first : List Cell} (hfront : linesOf front = up ++ [line])
    (hbehind : linesOf behind = first :: rest) :
    linesOf (front ++ (remark ++ x :: behind)) = up ++ (line ++ remark) :: first :: rest := by
  obtain ⟨_, _, _, _, hfront', hrest, hremarked⟩ :=
    exists_linesOf_append front (remark ++ x :: behind)
  rw [hfront, List.append_singleton_inj] at hfront'
  rw [show linesOf (remark ++ x :: behind) = linesOf remark ++ linesOf behind from
    cutAll_append_cons (by simp [hx]) remark behind, linesOf_eq_singleton hremark.inLine,
    hbehind, List.singleton_append, List.cons.injEq] at hrest
  rw [hremarked, ← hfront'.1, ← hfront'.2, ← hrest.1, ← hrest.2]

/-- What is not blank stands on the line, if there is only one. -/
theorem mem_of_linesOf_eq_singleton {s line : List Cell} (h : linesOf s = [line]) {y : Cell}
    (hy : y ∈ s) (hblank : isBlank y.char = false) : y ∈ line := by
  have hmem : y ∈ (linesOf s).flatten := by
    rw [linesOf, flatten_cutAll, List.mem_filter]
    refine ⟨hy, ?_⟩
    simp only [Bool.not_eq_true', beq_eq_false_iff_ne]
    rintro hnewline
    rw [hnewline] at hblank
    revert hblank
    decide
  rwa [h, List.flatten_singleton] at hmem

/-- What stands above a definition behind the line comment `remark`, if walks find the same at the
comment as without it. -/
theorem Kept.ofBefore {R : Leading → Leading → Prop} (hR : Kept R) (hremark : IsRemark remark)
    (hx : x.char = '\n') (hbehind : ∃ y ∈ behind, isBlank y.char = false)
    (hlines : ∀ line ∈ (linesOf behind).dropLast, isDocumentation line = true → unopened line = 0)
    (hseam : ∀ line up first block braces, (linesOf front).reverse = line :: up →
      first ∈ (linesOf behind).dropLast.head? → IsState block braces →
      braces + unopened first = unopened behind →
      R (above block braces ((line ++ first) :: up))
        (above block braces (first :: (line ++ remark) :: up))) :
    R (ofBefore (front ++ behind)) (ofBefore (front ++ (remark ++ x :: behind))) := by
  obtain ⟨up, line, first, rest, hfront, hfirst, hwhole⟩ := exists_linesOf_append front behind
  have hremarked := hremark.linesOf_insert hx hfront hfirst
  rcases rest.eq_nil_or_concat' with rfl | ⟨rest, last, rfl⟩
  · -- the definition stands on the line of the place, behind something that is not blank
    obtain ⟨y, hy, hblank⟩ := hbehind
    have hy := mem_of_linesOf_eq_singleton hfirst hy hblank
    have hwhole : (linesOf (front ++ behind)).reverse = (line ++ first) :: up.reverse := by
      rw [hwhole, List.reverse_concat]
    have hremarked : (linesOf (front ++ (remark ++ x :: behind))).reverse
        = first :: (line ++ remark) :: up.reverse := by
      rw [hremarked]
      simp
    rw [ofBefore_of_linesOf hwhole, ofBefore_of_linesOf hremarked, isBlankLine_eq_false hy hblank,
      isBlankLine_eq_false (List.mem_append_right line hy) hblank]
    exact hR.empty
  · have hdropLast : (linesOf behind).dropLast = first :: rest := by
      rw [hfirst, ← List.cons_append, List.dropLast_concat]
    rw [hdropLast] at hlines hseam
    have hwhole : (linesOf (front ++ behind)).reverse
        = last :: (rest.reverse ++ (line ++ first) :: up.reverse) := by
      rw [hwhole]
      simp
    have hremarked : (linesOf (front ++ (remark ++ x :: behind))).reverse
        = last :: (rest.reverse ++ first :: (line ++ remark) :: up.reverse) := by
      rw [hremarked]
      simp
    rw [ofBefore_of_linesOf hwhole, ofBefore_of_linesOf hremarked]
    cases hlast : isBlankLine last with
    | false => exact hR.empty
    | true =>
      have hsum : unopened behind = unopenedIn rest.reverse + unopened first := by
        rw [← unopenedIn_linesOf, hfirst, unopenedIn, unopenedIn_append, unopenedIn, unopenedIn,
          unopened_of_isBlankLine hlast, unopenedIn_reverse]
        omega
      rw [if_pos rfl, if_pos rfl]
      refine hR.above_append (List.cons_ne_nil _ _) (List.cons_ne_nil _ _) (fun block hstate => ?_)
        rest.reverse [] 0 isState_nil (fun line hline => ?_) (Int.zero_add _)
      · exact hseam line up.reverse first block _ (by rw [hfront]; simp) rfl hstate hsum.symm
      · exact hlines line (List.mem_cons_of_mem _ (List.mem_reverse.1 hline))

/-- The lines of a text but the last are lines of it with more text behind. -/
theorem prefix_linesOf_append (a b : List Cell) :
    (linesOf a).dropLast <+: linesOf (a ++ b) := by
  obtain ⟨up, last, first, rest, ha, -, hab⟩ := exists_linesOf_append a b
  rw [ha, hab, List.dropLast_concat]
  exact List.prefix_append _ _

/-- A walk up from behind a place finds no documentation from the place on, and no annotation over
the braces that are open there. No line begins as documentation behind the place, and none that
does further down shows braces. -/
structure Unmarked (front behind : List Cell) : Prop where
  documentation : (above [] 0 (linesOf front).reverse).documentation = []
  annotation : above [[]] (-unopened front) (linesOf front).reverse = empty
  line : ∀ line ∈ (linesOf behind).head?, isDocumentation line = false
  lines : ∀ line ∈ linesOf behind, isDocumentation line = true → unopened line = 0

namespace Unmarked

variable {rest : List Cell} (h : Unmarked front (behind ++ rest)) (hremark : IsRemark remark)
  (hx : x.char = '\n') (hbehind : ∃ y ∈ behind, isBlank y.char = false)

include h

theorem line_of_mem {line : List Cell} (hline : line ∈ (linesOf behind).dropLast.head?) :
    isDocumentation line = false := by
  refine h.line line ?_
  obtain ⟨lines, hlines⟩ := prefix_linesOf_append behind rest
  obtain ⟨ys, hys⟩ := List.head?_eq_some_iff.1 hline
  rw [← hlines, hys]
  rfl

theorem lines_of_mem {line : List Cell} (hline : line ∈ (linesOf behind).dropLast) :
    isDocumentation line = true → unopened line = 0 :=
  h.lines line ((prefix_linesOf_append behind rest).subset hline)

include hremark hx hbehind

/-- A comment leaves the documentation of a definition behind it that is not nested deeper. -/
theorem documentation_ofBefore (hopen : 0 ≤ unopened behind) :
    (ofBefore (front ++ behind)).documentation
      = (ofBefore (front ++ (remark ++ x :: behind))).documentation := by
  refine kept_documentation.ofBefore hremark hx hbehind (fun line => h.lines_of_mem)
    fun line up first block braces hfront hfirst hstate hsum => ?_
  have hdocs := h.documentation
  have hfirst := h.line_of_mem hfirst
  rw [hfront] at hdocs
  rcases Int.lt_or_eq_of_le hopen with hpos | hzero
  · obtain ⟨h1, h2⟩ := agree_seam hfirst hremark hdocs hstate (hsum ▸ hpos)
    exact h1.1.trans h2.1.symm
  · obtain ⟨h1, h2⟩ := documentation_seam hfirst hremark hdocs hstate (hsum.trans hzero.symm)
    rw [h1, h2]

/-- A comment leaves what stands above a definition behind all that is open at the comment. -/
theorem ofBefore_eq (hopen : 0 < unopened behind) (hsum : unopened (front ++ behind) = 0) :
    ofBefore (front ++ behind) = ofBefore (front ++ (remark ++ x :: behind)) := by
  refine kept_eq.ofBefore hremark hx hbehind (fun line => h.lines_of_mem)
    fun line up first block braces hfront hfirst hstate hbraces => ?_
  have hdocs := h.documentation
  have hannotation := h.annotation
  have hopened : -unopened front = braces + unopened first := by
    rw [unopened_append] at hsum
    omega
  rw [hfront] at hdocs hannotation
  rw [hopened] at hannotation
  obtain ⟨h1, h2⟩ := agree_seam (h.line_of_mem hfirst) hremark hdocs hstate (hbraces ▸ hopen)
  rw [h1.eq_empty hannotation, h2.eq_empty hannotation]

end Unmarked

end Before

end ConnectorCatalog.Leading
