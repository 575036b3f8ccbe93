import ConnectorCatalog.Proofs.Cut
import ConnectorCatalog.Proofs.Nested
import ConnectorCatalog.Proofs.Offset.Leading
import ConnectorCatalog.Proofs.Trim

/-!
# What stands above a definition behind another text

The walk up the lines above a definition finds something in a text in front of it exactly if that text
ends in documentation or in lines that read as an annotation (`endsInMetadata_iff`). Where the
text in front has well nested brackets and does not end so, the walk finds the same with that text and
without it (`ofBefore_append`): an annotation that is still open at the seam stays open, since no end
of a well nested text opens more braces than it closes.
-/

namespace ConnectorCatalog.Leading

/-- Closing braces of some lines less their opening braces. -/
def unopenedIn : List (List Cell) → Int
  | [] => 0
  | line :: lines => unopened line + unopenedIn lines

theorem unopenedIn_append (a b : List (List Cell)) :
    unopenedIn (a ++ b) = unopenedIn a + unopenedIn b := by
  induction a with
  | nil => simp [unopenedIn]
  | cons line a ih => simp [unopenedIn, ih, Int.add_assoc]

theorem unopenedIn_reverse (a : List (List Cell)) : unopenedIn a.reverse = unopenedIn a := by
  induction a with
  | nil => rfl
  | cons line a ih => simp [unopenedIn, unopenedIn_append, ih, Int.add_comm]

theorem linesOf_cons_of_break {x : Cell} (hx : x.char = '\n') (s : List Cell) :
    linesOf (x :: s) = [] :: linesOf s := by
  simp [linesOf, cutAll, hx]

theorem linesOf_cons {x : Cell} (hx : x.char ≠ '\n') (s : List Cell) :
    ∃ line lines, linesOf s = line :: lines ∧ linesOf (x :: s) = (x :: line) :: lines := by
  obtain ⟨line, lines, hs⟩ :=
    List.exists_cons_of_ne_nil (cutAll_ne_nil (fun y : Cell => y.char == '\n') s)
  refine ⟨line, lines, hs, ?_⟩
  rw [linesOf, cutAll_cons_of_not (p := fun y : Cell => y.char == '\n') (by simpa using hx), hs]
  rfl

/-- The lines of two texts in a row: the last line of the first goes on in the second. -/
theorem exists_linesOf_append (a b : List Cell) :
    ∃ up last first rest, linesOf a = up ++ [last] ∧ linesOf b = first :: rest ∧
      linesOf (a ++ b) = up ++ (last ++ first) :: rest := by
  obtain ⟨first, rest, hb⟩ := List.exists_cons_of_ne_nil
    (cutAll_ne_nil (fun y : Cell => y.char == '\n') b)
  have hb : linesOf b = first :: rest := hb
  induction a with
  | nil => exact ⟨[], [], first, rest, rfl, hb, hb⟩
  | cons x a ih =>
    obtain ⟨up, last, first, rest, ha, hb, hab⟩ := ih
    by_cases hx : x.char = '\n'
    · refine ⟨[] :: up, last, first, rest, ?_, hb, ?_⟩
      · rw [linesOf_cons_of_break hx, ha, List.cons_append]
      · rw [List.cons_append, linesOf_cons_of_break hx, hab, List.cons_append]
    · have hcons : ∀ {t line lines}, linesOf t = line :: lines →
          linesOf (x :: t) = (x :: line) :: lines := by
        intro t line lines ht
        obtain ⟨_, _, ht', hcons⟩ := linesOf_cons hx t
        rw [ht] at ht'
        cases ht'
        exact hcons
      cases up with
      | nil => exact ⟨[], x :: last, first, rest, hcons ha, hb, hcons hab⟩
      | cons line up => exact ⟨(x :: line) :: up, last, first, rest, hcons ha, hb, hcons hab⟩

theorem linesOf_eq_singleton {s : List Cell} (h : ∀ x ∈ s, x.char ≠ '\n') : linesOf s = [s] :=
  cutAll_eq_singleton fun x hx => beq_false_of_ne (h x hx)

/-- The first line of a text that begins on one line. -/
theorem exists_first_line {a : List Cell} (ha : ∀ x ∈ a, x.char ≠ '\n') (s : List Cell) :
    ∃ line lines, linesOf s = line :: lines ∧ linesOf (a ++ s) = (a ++ line) :: lines := by
  obtain ⟨up, last, first, rest, hlines, hs, has⟩ := exists_linesOf_append a s
  rw [linesOf_eq_singleton ha] at hlines
  obtain ⟨rfl, rfl⟩ := List.append_singleton_inj.1 (show [] ++ [a] = up ++ [last] from hlines)
  exact ⟨first, rest, hs, has⟩

/-- The last line of a text that ends on one line. -/
theorem exists_last_line (a : List Cell) {s : List Cell} (hs : ∀ x ∈ s, x.char ≠ '\n') :
    ∃ lines line, linesOf (a ++ s) = lines ++ [line ++ s] := by
  obtain ⟨up, last, first, rest, -, hlines, has⟩ := exists_linesOf_append a s
  rw [linesOf_eq_singleton hs] at hlines
  obtain ⟨rfl, rfl⟩ := List.cons.inj hlines
  exact ⟨up, last, has⟩

theorem ofBefore_of_linesOf {s line : List Cell} {up : List (List Cell)}
    (h : (linesOf s).reverse = line :: up) :
    ofBefore s = if isBlankLine line then above [] 0 up else empty := by
  have h : (cutAll (fun x => x.char == '\n') s).reverse = line :: up := h
  simp only [ofBefore, h]

theorem unopened_append (a b : List Cell) : unopened (a ++ b) = unopened a + unopened b := by
  induction a with
  | nil => simp [unopened]
  | cons x a ih => simp [unopened, ih, Int.add_assoc]

theorem unopenedIn_eq (lines : List (List Cell)) : unopenedIn lines = unopened lines.flatten := by
  induction lines with
  | nil => rfl
  | cons line lines ih => rw [unopenedIn, ih, List.flatten_cons, unopened_append]

theorem unopened_of_braceless {s : List Cell} (h : ∀ x ∈ s, x.shown ≠ '\x7b' ∧ x.shown ≠ '\x7d') :
    unopened s = 0 := by
  induction s with
  | nil => rfl
  | cons x s ih =>
    rw [List.forall_mem_cons] at h
    simp [unopened, h.1, ih h.2]

theorem unopened_break {x : Cell} (hx : x.char = '\n') (s : List Cell) :
    unopened (x :: s) = unopened s := by
  have hn : x.shown ≠ '\x7d' ∧ x.shown ≠ '\x7b' := by
    rw [Cell.shown, hx]
    cases x.isCode <;> decide
  simp [unopened, hn]

theorem unopenedIn_linesOf : ∀ s : List Cell, unopenedIn (linesOf s) = unopened s
  | [] => rfl
  | x :: s => by
    have ih := unopenedIn_linesOf s
    by_cases hx : x.char = '\n'
    · rw [linesOf_cons_of_break hx, unopenedIn, ih, unopened_break hx, unopened, Int.zero_add]
    · obtain ⟨line, lines, hs, hxs⟩ := linesOf_cons hx s
      rw [hs, unopenedIn] at ih
      rw [hxs, unopenedIn, unopened, unopened, ← ih, Int.add_assoc]

/-- The last lines of a text are the lines of an end of it, as far as braces go. -/
theorem exists_suffix_of_linesOf : ∀ (s : List Cell) (below : List (List Cell)),
    below <:+ linesOf s → ∃ t, t <:+ s ∧ unopenedIn below = unopened t
  | [], below, h => by
    rcases List.suffix_cons_iff.1 h with rfl | h
    · exact ⟨[], List.suffix_rfl, rfl⟩
    · exact ⟨[], List.suffix_rfl, by simp [List.suffix_nil.1 h, unopenedIn, unopened]⟩
  | x :: s, below, h => by
    by_cases hall : below = linesOf (x :: s)
    · exact ⟨x :: s, List.suffix_rfl, by rw [hall, unopenedIn_linesOf]⟩
    -- a proper part of the lines is a part of the lines of the rest
    have hrest : below <:+ linesOf s := by
      by_cases hx : x.char = '\n'
      · rw [linesOf_cons_of_break hx] at h hall
        exact (List.suffix_cons_iff.1 h).resolve_left hall
      · obtain ⟨line, lines, hs, hxs⟩ := linesOf_cons hx s
        rw [hxs] at h hall
        exact hs ▸ ((List.suffix_cons_iff.1 h).resolve_left hall).trans (List.suffix_cons _ _)
    obtain ⟨t, ht, he⟩ := exists_suffix_of_linesOf _ _ hrest
    exact ⟨t, ht.trans (List.suffix_cons _ _), he⟩

/-- What closes pending brackets closes as many braces more than it opens. -/
theorem unopened_of_wellNestedFrom : ∀ {pending : List Char} {s : List Cell},
    wellNestedFrom Cell.shown pending s = true → unopened s = pending.count '\x7d'
  | pending, [], h => by
    simp [wellNestedFrom] at h
    simp [h, unopened]
  | pending, x :: s, h => by
    rcases wellNestedFrom_cons h with ⟨c, ho, hs⟩ | ⟨rest, hc, rfl, hs⟩ | ⟨ho, hc, hs⟩
    · have ih := unopened_of_wellNestedFrom hs
      rcases closing?_cases ho with ⟨hx, rfl⟩ | ⟨hx, rfl⟩ | ⟨hx, rfl⟩
      · rw [unopened, hx, ih, List.count_cons_self, if_neg (by decide), if_pos rfl]
        omega
      · simp [unopened, hx, ih]
      · simp [unopened, hx, ih]
    · have ih := unopened_of_wellNestedFrom hs
      simp only [isClosing, Bool.or_eq_true, beq_iff_eq] at hc
      rcases hc with (hx | hx) | hx <;> simp [unopened, hx, ih, Int.add_comm]
    · have ih := unopened_of_wellNestedFrom hs
      have hx : x.shown ≠ '\x7d' ∧ x.shown ≠ '\x7b' := by
        refine ⟨fun h => ?_, fun h => ?_⟩
        · simp [h, isClosing] at hc
        · simp [h, closing?] at ho
      simp [unopened, hx, ih]

/-- No end of a well nested text opens more braces than it closes. -/
theorem unopened_nonneg {s t : List Cell} (h : wellNested Cell.shown s = true) (ht : t <:+ s) :
    0 ≤ unopened t := by
  obtain ⟨a, rfl⟩ := ht
  obtain ⟨pending, hp⟩ := exists_pending h
  rw [unopened_of_wellNestedFrom hp]
  omega

/-- The line is documentation. -/
def isDocumentation (line : List Cell) : Bool := (documentation? line).isSome

theorem isBlankLine_eq_false {line : List Cell} {x : Cell} (hx : x ∈ line)
    (hblank : isBlank x.char = false) : isBlankLine line = false := by
  rw [isBlankLine, List.isEmpty_eq_false_iff]
  intro h
  have hhead := head?_trim (chars line)
  rw [h, List.head?_nil, eq_comm, List.head?_eq_none_iff] at hhead
  have := List.dropWhile_eq_nil_iff.1 hhead x.char (List.mem_map_of_mem hx)
  rw [hblank] at this
  cases this

theorem isDocumentation_eq_false {line : List Cell} (h : (trim (chars line)).head? ≠ some '#') :
    isDocumentation line = false := by
  rw [isDocumentation, documentation?]
  cases htrim : trim (chars line) with
  | nil => rfl
  | cons c r =>
    have hc : c ≠ '#' := fun he => h (by rw [htrim, he]; rfl)
    simp [textAfterMark?, hc]

/-- Lines that read as an annotation: the first begins with `@`, the last is neither blank nor
documentation, and the braces balance over all lines and over no smaller number of last lines. -/
structure IsAnnotation (block : List (List Cell)) : Prop where
  marked : ∃ line ∈ block.head?, startsAnnotated line = true
  ends : ∀ line ∈ block.getLast?, isBlankLine line = false ∧ isDocumentation line = false
  balanced : unopenedIn block = 0
  unbalanced : ∀ below, below <:+ block → below ≠ [] → below ≠ block → 0 < unopenedIn below

/-- Some lines end, but for blank lines, in documentation or in an annotation. -/
def EndsInMetadata (lines : List (List Cell)) : Prop :=
  ∃ before block blanks, lines = before ++ block ++ blanks ∧
    (∀ line ∈ blanks, isBlankLine line = true) ∧
    ((∃ line, block = [line] ∧ isDocumentation line = true) ∨ IsAnnotation block)

/-- A walk over lines that may be an annotation finds nothing, or the annotation they are part of. -/
theorem inBlock_cases : ∀ (up : List (List Cell)) (line : List Cell) (block : List (List Cell)),
    (∀ below, below <:+ block → below ≠ [] → 0 < unopenedIn below) →
    inBlock block (unopenedIn block) line up = empty ∨
      ∃ before upper, up.reverse = before ++ upper ∧
        (∃ top ∈ (upper ++ line :: block).head?, startsAnnotated top = true) ∧
        unopenedIn (upper ++ line :: block) = 0 ∧
        ∀ below, below <:+ upper ++ line :: block → below ≠ [] → below ≠ upper ++ line :: block →
          0 < unopenedIn below
  | up, line, block, hblock => by
    have hcount : unopenedIn block + unopened line = unopenedIn (line :: block) := by
      rw [unopenedIn, Int.add_comm]
    rw [inBlock, hcount]
    by_cases hstop : unopenedIn (line :: block) ≤ 0 ∨ up = []
    · rw [if_pos hstop]
      by_cases hmark : unopenedIn (line :: block) = 0 ∧ startsAnnotated line = true
      · refine .inr ⟨up.reverse, [], by simp, ⟨line, rfl, hmark.2⟩, hmark.1,
          fun below hb hne hall => ?_⟩
        exact hblock below ((List.suffix_cons_iff.1 hb).resolve_left hall) hne
      · rw [if_neg hmark]
        exact .inl rfl
    · rw [if_neg hstop]
      rcases up with _ | ⟨next, up⟩
      · simp at hstop
      · have hblock' : ∀ below, below <:+ line :: block → below ≠ [] → 0 < unopenedIn below := by
          intro below hb hne
          rcases List.suffix_cons_iff.1 hb with rfl | hb
          · omega
          · exact hblock below hb hne
        rw [above_cons_of_block rfl]
        rcases inBlock_cases up next _ hblock' with h | ⟨before, upper, hup, hrest⟩
        · exact .inl h
        · refine .inr ⟨before, upper ++ [next], by simp [hup], ?_⟩
          simpa using hrest

/-- The walk finds something only where the lines end in documentation or an annotation. -/
theorem endsInMetadata_of_above : ∀ {up : List (List Cell)}, above [] 0 up ≠ empty →
    EndsInMetadata up.reverse
  | [], h => absurd rfl h
  | line :: up, h => by
    rw [List.reverse_cons]
    rcases hblank : isBlankLine line with _ | _
    · rcases hdoc : documentation? line with _ | text
      · rw [above_cons_of_mark hblank hdoc] at h
        rcases inBlock_cases up line [] (by simp) with
          hnone | ⟨before, upper, hup, hmark, hsum, hopen⟩
        · exact absurd hnone h
        · refine ⟨before, upper ++ [line], [], by simp [hup], by simp, .inr ⟨hmark, ?_, hsum, hopen⟩⟩
          simp [isDocumentation, hblank, hdoc]
      · exact ⟨up.reverse, [line], [], by simp, by simp,
          .inl ⟨line, rfl, by rw [isDocumentation, hdoc, Option.isSome_some]⟩⟩
    · rw [above_cons_of_blank hblank] at h
      obtain ⟨before, block, blanks, hup, hblanks, hblock⟩ := endsInMetadata_of_above h
      refine ⟨before, block, blanks ++ [line], by simp [hup], fun x hx => ?_, hblock⟩
      rcases List.mem_append.1 hx with hx | hx
      · exact hblanks x hx
      · rw [List.mem_singleton.1 hx, hblank]

/-- An annotation is taken as a whole, and the walk goes on above it. -/
theorem inBlock_of_isAnnotation (up : List (List Cell)) : ∀ (upper : List (List Cell))
    (line : List Cell) (block : List (List Cell)), IsAnnotation (upper.reverse ++ line :: block) →
    inBlock block (unopenedIn block) line (upper ++ up) = { above [] 0 up with
      annotations := (above [] 0 up).annotations ++ (upper.reverse ++ line :: block).map chars }
  | [], line, block, h => by
    obtain ⟨top, htop, hmark⟩ := h.marked
    obtain rfl : line = top := by simpa using htop
    have hsum : unopenedIn block + unopened line = 0 := by
      have := h.balanced
      simp only [List.reverse_nil, List.nil_append, unopenedIn] at this
      omega
    simp [inBlock, hsum, hmark]
  | next :: upper, line, block, h => by
    have hopen : 0 < unopenedIn (line :: block) := by
      refine h.unbalanced _ (List.suffix_append _ _) (by simp) fun heq => ?_
      have := congrArg List.length heq
      simp only [List.length_append, List.length_reverse, List.length_cons] at this
      omega
    have hcount : unopenedIn block + unopened line = unopenedIn (line :: block) := by
      rw [unopenedIn, Int.add_comm]
    have hwhole : (next :: upper).reverse ++ line :: block
        = upper.reverse ++ next :: line :: block := by
      simp
    rw [hwhole] at h
    rw [inBlock, hcount, List.cons_append, if_neg (by simp; omega), above_cons_of_block rfl,
      inBlock_of_isAnnotation up _ _ _ h, hwhole]

/-- The walk takes an annotation that it meets at its last line. -/
theorem above_annotated {block : List (List Cell)} (h : IsAnnotation block)
    (up : List (List Cell)) :
    above [] 0 (block.reverse ++ up) = { above [] 0 up with
      annotations := (above [] 0 up).annotations ++ block.map chars } := by
  rcases block.eq_nil_or_concat' with rfl | ⟨upper, line, rfl⟩
  · obtain ⟨top, htop, -⟩ := h.marked
    cases htop
  · obtain ⟨hblank, hdoc⟩ := h.ends line (by simp)
    have hwhole := inBlock_of_isAnnotation up upper.reverse line [] (by rwa [List.reverse_reverse])
    rw [List.reverse_reverse] at hwhole
    rw [List.reverse_append, List.reverse_singleton, List.singleton_append, List.cons_append,
      above_cons_of_mark hblank (by simpa [isDocumentation] using hdoc), ← hwhole]
    rfl

theorem isBlankLine_of_isDocumentation {line : List Cell} (h : isDocumentation line = true) :
    isBlankLine line = false := by
  rw [isDocumentation, documentation?] at h
  rw [isBlankLine]
  cases htrim : trim (chars line) with
  | nil => simp [htrim, textAfterMark?] at h
  | cons c r => rfl

/-- Lines end in metadata exactly if a walk up from their end finds some. -/
theorem endsInMetadata_iff {lines : List (List Cell)} :
    EndsInMetadata lines ↔ above [] 0 lines.reverse ≠ empty := by
  refine ⟨?_, fun h => List.reverse_reverse lines ▸ endsInMetadata_of_above h⟩
  rintro ⟨before, block, blanks, rfl, hblanks, hblock⟩
  have hskip : ∀ (blanks up : List (List Cell)), (∀ line ∈ blanks, isBlankLine line = true) →
      above [] 0 (blanks ++ up) = above [] 0 up := by
    intro blanks up hblanks
    induction blanks with
    | nil => rfl
    | cons line blanks ih =>
      rw [List.cons_append, above_cons_of_blank (hblanks line (by simp)),
        ih fun x hx => hblanks x (by simp [hx])]
  rw [List.reverse_append, List.reverse_append, hskip _ _ (by simpa using hblanks)]
  rcases hblock with ⟨line, rfl, hdoc⟩ | hannotation
  · obtain ⟨text, htext⟩ := Option.isSome_iff_exists.1 hdoc
    simp [above_cons_of_documentation (isBlankLine_of_isDocumentation hdoc) htext, empty]
  · have hne : block ≠ [] := by
      rintro rfl
      obtain ⟨top, htop, -⟩ := hannotation.marked
      cases htop
    simp [above_annotated hannotation, empty, hne]

instance (lines : List (List Cell)) : Decidable (EndsInMetadata lines) :=
  decidable_of_iff _ endsInMetadata_iff.symm

section Seam

/-- An annotation with braces to open that no lines above open is none. -/
theorem above_of_open : ∀ {up block : List (List Cell)} {braces : Int},
    block ≠ [] → (∀ below, below <+: up → 0 < braces + unopenedIn below) →
    above block braces up = empty
  | [], _, _, _, _ => rfl
  | line :: up, block, braces, hblock, hopen => by
    have hline : 0 < braces + unopened line := by simpa [unopenedIn] using hopen [line] (by simp)
    rw [above_cons_of_block (by simpa using hblock), inBlock]
    rcases up with _ | ⟨next, up⟩
    · rw [if_pos (.inr rfl), if_neg (by omega)]
    · rw [if_neg (by simp; omega)]
      refine above_of_open (by simp) fun below hb => ?_
      have := hopen (line :: below) (by simpa using hb)
      simp only [unopenedIn] at this
      omega

variable {up : List (List Cell)} (hempty : above [] 0 up = empty)
  (hclosed : ∀ below, below <+: up → 0 ≤ unopenedIn below)

include hempty hclosed

/-- Lines in front in which a walk finds nothing, and which open no brace of an annotation behind
them, leave the walk behind them as it is. -/
theorem above_append (lines : List (List Cell)) :
    above [] 0 (lines ++ up) = above [] 0 lines ∧
      ∀ block braces, block ≠ [] → 0 < braces →
        above block braces (lines ++ up) = above block braces lines := by
  induction lines with
  | nil =>
    refine ⟨hempty, fun block braces hblock hbraces => above_of_open hblock fun below hb => ?_⟩
    have := hclosed below hb
    omega
  | cons line lines ih =>
    have hwalk : ∀ block braces,
        inBlock block braces line (lines ++ up) = inBlock block braces line lines := by
      intro block braces
      unfold inBlock
      by_cases hle : braces + unopened line ≤ 0
      · simp only [hle, true_or, if_true, ih.1]
      · -- the annotation is open, and stays so up to the first line of all
        rw [ih.2 _ _ (List.cons_ne_nil _ _) (Int.not_le.1 hle)]
        have hne : braces + unopened line ≠ 0 := by omega
        rcases lines with _ | ⟨next, lines⟩
        · simp [hne, above]
        · simp [hle]
    refine ⟨?_, fun block braces hblock hbraces => ?_⟩
    · rw [List.cons_append]
      rcases hblank : isBlankLine line with _ | _
      · rcases hdoc : documentation? line with _ | text
        · rw [above_cons_of_mark hblank hdoc, above_cons_of_mark hblank hdoc, hwalk]
        · rw [above_cons_of_documentation hblank hdoc, above_cons_of_documentation hblank hdoc, ih.1]
      · rw [above_cons_of_blank hblank, above_cons_of_blank hblank, ih.1]
    · have hne : block.isEmpty = false := by simpa using hblock
      rw [List.cons_append, above_cons_of_block hne, above_cons_of_block hne, hwalk]

omit hempty hclosed

/-- What stands above a definition is the same with a text in front that ends its last line, has well
nested brackets and does not end in documentation or an annotation. -/
theorem ofBefore_append {s : List Cell} {x : Cell} (hx : x.char = '\n')
    (hnested : wellNested Cell.shown (s ++ [x]) = true) (hends : ¬ EndsInMetadata (linesOf (s ++ [x])))
    (b : List Cell) : ofBefore (s ++ [x] ++ b) = ofBefore b := by
  have hcut : ∀ t, linesOf (s ++ x :: t) = linesOf s ++ linesOf t := fun t =>
    cutAll_append_cons (by simp [hx]) s t
  have hempty : above [] 0 (linesOf s).reverse = empty := by
    have hwhole : linesOf (s ++ [x]) = linesOf s ++ [[]] := hcut []
    have hblank : isBlankLine [] = true := rfl
    rw [endsInMetadata_iff, hwhole, List.reverse_append, List.reverse_singleton,
      List.singleton_append, above_cons_of_blank hblank] at hends
    exact not_not.1 hends
  have hclosed : ∀ below, below <+: (linesOf s).reverse → 0 ≤ unopenedIn below := by
    intro below hb
    obtain ⟨t, ht, he⟩ := exists_suffix_of_linesOf s below.reverse
      (by rwa [← List.reverse_prefix, List.reverse_reverse])
    -- the line break at the end of the text is no brace
    have hbreak : unopened (t ++ [x]) = unopened t := by
      have : linesOf (t ++ [x]) = linesOf t ++ linesOf [] := cutAll_append_cons (by simp [hx]) t []
      rw [← unopenedIn_linesOf, this, unopenedIn_append, unopenedIn_linesOf, unopenedIn_linesOf]
      simp [unopened]
    rw [← unopenedIn_reverse, he, ← hbreak]
    obtain ⟨a, rfl⟩ := ht
    exact unopened_nonneg hnested ⟨a, by simp⟩
  obtain ⟨line, up, hb⟩ := List.exists_cons_of_ne_nil
    (mt List.reverse_eq_nil_iff.1 (cutAll_ne_nil (fun y : Cell => y.char == '\n') b))
  have hb : (linesOf b).reverse = line :: up := hb
  have hwhole : (linesOf (s ++ [x] ++ b)).reverse = line :: (up ++ (linesOf s).reverse) := by
    rw [List.append_assoc, List.singleton_append, hcut, List.reverse_append, hb, List.cons_append]
  rw [ofBefore_of_linesOf hwhole, ofBefore_of_linesOf hb, (above_append hempty hclosed up).1]

end Seam

end ConnectorCatalog.Leading
