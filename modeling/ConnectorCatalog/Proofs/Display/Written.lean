import ConnectorCatalog.Proofs.Composition
import ConnectorCatalog.Proofs.Display.Fields
import ConnectorCatalog.Proofs.Leading.Written
import ConnectorCatalog.Proofs.Segment
import ConnectorCatalog.Proofs.Cut
import Mathlib.Data.List.TakeWhile

/-!
# A display annotation is read back as it was written

The masked text of a written annotation has one opening brace, in its first line, and one closing
brace, in its last line (`exists_cells`), so the walk up from the class takes its lines as a whole
(`isAnnotation_text`), whatever documentation stands between. What is looked for then is looked for in
the lines as they are written, values included: the fields are found if no value has a closing brace
and the first does not end in the name of the second and a colon (`display_written`). A value with a
closing brace ends the search (`display_misread`).
-/

namespace ConnectorCatalog

/-- What holds of a text still holds with tokens laid out in front of it, if it does with one token
and with one blank. -/
theorem laidOut_rec {P : List Char → Prop} {r : List Char}
    (hblank : ∀ c s, isBlank c = true → P s → P (c :: s)) (hr : P r) :
    ∀ {ts : List (List Char)} {s : List Char}, (∀ t ∈ ts, ∀ s, P s → P (t ++ s)) → LaidOut ts s →
      P (s ++ r) := by
  have hblanks : ∀ {gap s : List Char}, (∀ c ∈ gap, isBlank c = true) → P s → P (gap ++ s) := by
    intro gap s hgap hs
    induction gap with
    | nil => exact hs
    | cons c gap ih =>
      rw [List.forall_mem_cons] at hgap
      exact hblank c _ hgap.1 (ih hgap.2)
  intro ts
  induction ts with
  | nil => exact fun _ hs => hblanks hs hr
  | cons t ts ih =>
    rintro s ht ⟨gap, s, rfl, hgap, hs⟩
    rw [List.append_assoc, List.append_assoc]
    refine hblanks hgap (ht t (List.mem_cons_self ..) _ ?_)
    exact ih (fun u hu => ht u (List.mem_cons_of_mem _ hu)) hs

section Cells

/-- Read in code, the text shows no braces and leads back to code, whatever follows it. -/
def IsBraceless (t : List Char) : Prop :=
  t.getLast? ≠ some '/' ∧ ∀ s : Scan, s.context = .code → (s.final t).context = .code ∧
    ∀ x ∈ s.cells t, x.shown ≠ '\x7b' ∧ x.shown ≠ '\x7d'

theorem isBraceless_append {a b : List Char} (ha : IsBraceless a) (hb : IsBraceless b) :
    IsBraceless (a ++ b) := by
  refine ⟨?_, fun s hs => ?_⟩
  · rw [List.getLast?_append]
    cases h : b.getLast? with
    | none => exact ha.1
    | some c => simpa [h] using hb.1
  · obtain ⟨ha₁, ha₂⟩ := ha.2 s hs
    obtain ⟨hb₁, hb₂⟩ := hb.2 _ ha₁
    obtain ⟨hcells, hfinal⟩ := Scan.append_of_apart a b (s := s) (.inl (.inr ha.1))
    rw [hcells, hfinal]
    exact ⟨hb₁, fun x hx => (List.mem_append.1 hx).elim (ha₂ x) (hb₂ x)⟩

theorem isBraceless_of_isPlain {t : List Char} (ht : IsPlain t)
    (hbraces : '\x7b' ∉ t ∧ '\x7d' ∉ t) : IsBraceless t := by
  refine ⟨fun h => (ht _ (List.mem_of_getLast? h)).2.2.2 rfl, fun s hs => ?_⟩
  obtain ⟨hcells, hfinal⟩ := Scan.cells_of_isPlain hs ht
  refine ⟨hfinal, fun x hx => ?_⟩
  rw [hcells] at hx
  obtain ⟨c, hc, rfl⟩ := List.mem_map.1 hx
  exact ⟨fun h => hbraces.1 (h ▸ hc), fun h => hbraces.2 (h ▸ hc)⟩

/-- A string shows as blanks and line breaks up to the quote that ends it. -/
theorem cells_string {v : List Char} (hv : ∀ c ∈ v, c ≠ '"' ∧ c ≠ '\\') (f : Bool) :
    (Scan.final ⟨.string, f⟩ (v ++ ['"'])).context = .code ∧
      ∀ x ∈ Scan.cells ⟨.string, f⟩ (v ++ ['"']), x.shown ≠ '\x7b' ∧ x.shown ≠ '\x7d' := by
  induction v generalizing f with
  | nil => exact ⟨rfl, by simp [Scan.cells, Scan.step, Scan.read, Cell.shown]⟩
  | cons c v ih =>
    rw [List.forall_mem_cons] at hv
    obtain ⟨f', isCode, hstep, hshown⟩ : ∃ f' isCode,
        Scan.step ⟨.string, f⟩ c ((v ++ ['"']).head? == some '/')
          = (⟨.string, f'⟩, ⟨c, isCode⟩) ∧ (isCode = true → c = '\n') := by
      by_cases hc : c = '\n'
      · exact ⟨true, true, by rw [Scan.step, if_pos hc]; rfl, fun _ => hc⟩
      · exact ⟨_, false, by simp [Scan.step_of_ne_newline hc, Scan.read, hv.1]; rfl,
          fun h => absurd h Bool.false_ne_true⟩
    rw [List.cons_append, Scan.cells_cons, Scan.final_cons, hstep]
    refine ⟨(ih hv.2 f').1, fun x hx => ?_⟩
    rcases List.mem_cons.1 hx with rfl | hx
    · cases isCode with
      | false => simp [Cell.shown]
      | true => simp [Cell.shown, hshown rfl]
    · exact (ih hv.2 f').2 x hx

theorem isBraceless_string {v : List Char} (hv : ∀ c ∈ v, c ≠ '"' ∧ c ≠ '\\') :
    IsBraceless ('"' :: (v ++ ['"'])) := by
  refine ⟨by rw [← List.cons_append, List.getLast?_concat]; decide, fun s hs => ?_⟩
  have hstep : ∀ b, s.step '"' b = (⟨.string, false⟩, ⟨'"', true⟩) := by
    intro b
    simp [Scan.step, Scan.read, hs]
  obtain ⟨hfinal, hcells⟩ := cells_string hv false
  rw [Scan.cells_cons, Scan.final_cons, hstep]
  exact ⟨hfinal, List.forall_mem_cons.2 ⟨⟨by decide, by decide⟩, hcells⟩⟩

variable {d : WrittenDisplay} (hd : d.IsWritten)

include hd

theorem isBraceless_inside : IsBraceless d.inside := by
  rw [← List.append_nil d.inside]
  refine laidOut_rec (fun c s hc hs => ?_) (isBraceless_of_isPlain (t := []) (by decide) (by decide))
    (fun t ht s hs => isBraceless_append ?_ hs) hd.inside
  · refine isBraceless_append (a := [c]) (isBraceless_of_isPlain ?_ ?_) hs
    · exact isPlain_of_isBlank (List.forall_mem_singleton.2 hc)
    · constructor <;> rw [List.mem_singleton] <;> rintro rfl <;> exact absurd hc (by decide)
  · refine d.forall_tokens (P := IsBraceless) ?_ ?_ ?_ ?_ (fun v hv => isBraceless_string ?_) t ht
    · exact isBraceless_of_isPlain (by simp [IsPlain]) (by simp)
    · exact isBraceless_of_isPlain (by simp [IsPlain]) (by simp)
    · exact isBraceless_of_isPlain (by decide) (by decide)
    · exact isBraceless_of_isPlain (by decide) (by decide)
    · rcases hv with rfl | rfl
      · exact fun c hc => ⟨(hd.label c hc).1, (hd.label c hc).2.1⟩
      · exact fun c hc => ⟨(hd.iconPath c hc).1, (hd.iconPath c hc).2.1⟩

/-- The cells of a written annotation: one opening brace is shown, and one closing brace behind it. -/
theorem exists_cells : ∃ pre inner post,
    cells d.text = pre ++ ⟨'\x7b', true⟩ :: (inner ++ ⟨'\x7d', true⟩ :: post) ∧
    chars pre = d.indent ++ ("@display".toList ++ d.gap) ∧ chars post = d.behind ∧
    ∀ x ∈ pre ++ inner ++ post, x.shown ≠ '\x7b' ∧ x.shown ≠ '\x7d' := by
  have hblank : ∀ {s : List Char}, (∀ c ∈ s, isBlank c = true) → IsBraceless s := fun hs =>
    isBraceless_of_isPlain (isPlain_of_isBlank hs)
      ⟨fun h => absurd (hs _ h) (by decide), fun h => absurd (hs _ h) (by decide)⟩
  have hmark : IsBraceless "@display".toList :=
    isBraceless_of_isPlain (by simp [IsPlain]) (by simp)
  have hpre := (isBraceless_append (hblank fun c hc => (hd.indent c hc).1)
    (isBraceless_append hmark (hblank hd.gap))).2 Scan.start rfl
  have hinside := (isBraceless_inside hd).2 Scan.inLine rfl
  have hpost := (hblank fun c hc => (hd.behind c hc).1).2 Scan.inLine rfl
  have hcells := (Scan.append_mark (c := '\x7b') (by decide) hpre.1
    (d.inside ++ '\x7d' :: d.behind)).1
  have hcells' := (Scan.append_mark (c := '\x7d') (by decide) hinside.1 d.behind).1
  rw [d.text_eq, ← List.append_assoc "@display".toList, ← List.append_assoc d.indent, cells, hcells,
    hcells']
  refine ⟨_, _, _, rfl, Scan.chars_cells .., Scan.chars_cells .., fun x hx => ?_⟩
  rcases List.mem_append.1 hx with hx | hx
  · exact (List.mem_append.1 hx).elim (hpre.2 x) (hinside.2 x)
  · exact hpost.2 x hx

end Cells

section Lines

/-- No line of the text begins with a number sign, blanks apart. -/
def IsUnhashed (s : List Char) : Prop :=
  ∀ line ∈ cutAll (· == '\n') s, (trimStart line).head? ≠ some '#'

theorem isUnhashed_cons {c : Char} {s : List Char} (hc : isBlank c = true) (hs : IsUnhashed s) :
    IsUnhashed (c :: s) := by
  have hblank : ∀ line, trimStart (c :: line) = trimStart line :=
    trimStart_blanks (a := [c]) (List.forall_mem_singleton.2 hc)
  unfold IsUnhashed
  by_cases hbreak : c = '\n'
  · rw [cutAll, if_pos (beq_iff_eq.2 hbreak)]
    exact List.forall_mem_cons.2 ⟨by decide, hs⟩
  · obtain ⟨line, lines, hlines⟩ := List.exists_cons_of_ne_nil (cutAll_ne_nil (· == '\n') s)
    rw [IsUnhashed, hlines, List.forall_mem_cons] at hs
    rw [cutAll_cons_of_not (p := (· == '\n')) (beq_false_of_ne hbreak), hlines,
      List.modifyHead_cons, List.forall_mem_cons, hblank]
    exact hs

theorem isUnhashed_append {c : Char} {w s : List Char} (hc : isBlank c = false) (hmark : c ≠ '#')
    (hbreak : '\n' ∉ c :: w) (hs : IsUnhashed s) : IsUnhashed (c :: w ++ s) := by
  have hnone : ∀ x ∈ c :: w, (x == '\n') = false := by
    intro x hx
    refine beq_false_of_ne ?_
    rintro rfl
    exact hbreak hx
  obtain ⟨line, lines, hlines⟩ := List.exists_cons_of_ne_nil (cutAll_ne_nil (· == '\n') s)
  rw [IsUnhashed, hlines, List.forall_mem_cons] at hs
  rw [IsUnhashed, cutAll_append_of_not hnone, hlines, List.modifyHead_cons, List.forall_mem_cons,
    List.cons_append, trimStart_cons hc]
  exact ⟨by simpa using hmark, hs.2⟩

theorem isUnhashed_text {d : WrittenDisplay} (hd : d.IsWritten) : IsUnhashed d.text := by
  have hblanks : ∀ {gap s : List Char}, (∀ c ∈ gap, isBlank c = true) → IsUnhashed s →
      IsUnhashed (gap ++ s) := fun hgap hs =>
    laidOut_rec (fun _ _ => isUnhashed_cons) hs (List.forall_mem_nil _) hgap
  have hmark : ∀ {c : Char}, isBlank c = false → c ≠ '#' → c ≠ '\n' → ∀ {s}, IsUnhashed s →
      IsUnhashed ([c] ++ s) := fun hc hhash hnewline s hs =>
    isUnhashed_append hc hhash (by simpa using Ne.symm hnewline) hs
  have hnil : IsUnhashed [] := by
    unfold IsUnhashed
    decide
  have hbehind := hblanks (fun c hc => (hd.behind c hc).1) hnil
  rw [List.append_nil] at hbehind
  have hend : IsUnhashed ('\x7d' :: d.behind) := hmark (by decide) (by decide) (by decide) hbehind
  have hinside : IsUnhashed (d.inside ++ '\x7d' :: d.behind) := by
    refine laidOut_rec (fun _ _ => isUnhashed_cons) hend (fun t ht => ?_) hd.inside
    refine d.forall_tokens (P := fun t => ∀ s, IsUnhashed s → IsUnhashed (t ++ s)) ?_ ?_ ?_ ?_ ?_ t ht
    · exact fun s => isUnhashed_append (c := 'l') (w := "abel".toList) (by decide) (by decide) (by simp)
    · exact fun s => isUnhashed_append (c := 'i') (w := "conPath".toList) (by decide) (by decide)
        (by simp)
    · exact fun s => hmark (by decide) (by decide) (by decide)
    · exact fun s => hmark (by decide) (by decide) (by decide)
    · refine fun v hv s => isUnhashed_append (by decide) (by decide) ?_
      rcases hv with rfl | rfl
      · simpa using fun h => (hd.label _ h).2.2 rfl
      · simpa using fun h => (hd.iconPath _ h).2.2 rfl
  have hgap := hblanks hd.gap (hmark (c := '\x7b') (by decide) (by decide) (by decide) hinside)
  have htext := hblanks (fun c hc => (hd.indent c hc).1) (isUnhashed_append (c := '@')
    (w := "display".toList) (by decide) (by decide) (by simp) hgap)
  rw [d.text_eq]
  exact htext

namespace Leading

/-- A text without opening braces closes some if one closing brace is shown. -/
theorem unopened_pos {s : List Cell} (hopen : ∀ x ∈ s, x.shown ≠ '\x7b')
    (hclose : ∃ x ∈ s, x.shown = '\x7d') : 0 < unopened s := by
  have hnonneg : ∀ {s : List Cell}, (∀ x ∈ s, x.shown ≠ '\x7b') → 0 ≤ unopened s := by
    intro s hs
    induction s with
    | nil => exact Int.le_refl 0
    | cons x s ih =>
      rw [List.forall_mem_cons] at hs
      have := ih hs.2
      rw [unopened, if_neg hs.1]
      split <;> omega
  obtain ⟨x, hx, hshown⟩ := hclose
  obtain ⟨a, b, rfl⟩ := List.append_of_mem hx
  rw [List.forall_mem_append, List.forall_mem_cons] at hopen
  have ha := hnonneg hopen.1
  have hb := hnonneg hopen.2.2
  rw [unopened_append, unopened, if_pos hshown]
  omega

section Braces

variable {pre inner post : List Cell}
  (hbraces : ∀ x ∈ pre ++ inner ++ post, x.shown ≠ '\x7b' ∧ x.shown ≠ '\x7d')

include hbraces

theorem unopened_of_braces :
    unopened (pre ++ ⟨'\x7b', true⟩ :: (inner ++ ⟨'\x7d', true⟩ :: post)) = 0 := by
  simp only [List.forall_mem_append] at hbraces
  rw [unopened_append, unopened, unopened_append, unopened, unopened_of_braceless hbraces.1.1,
    unopened_of_braceless hbraces.1.2, unopened_of_braceless hbraces.2]
  rfl

/-- Below the line with the opening brace, the brace in the last line is still to be opened. -/
theorem unopenedIn_below (hpre : ∀ x ∈ pre, x.char ≠ '\n') (hpost : ∀ x ∈ post, x.char ≠ '\n')
    {below : List (List Cell)}
    (hbelow : below <:+ linesOf (pre ++ ⟨'\x7b', true⟩ :: (inner ++ ⟨'\x7d', true⟩ :: post)))
    (hne : below ≠ [])
    (hall : below ≠ linesOf (pre ++ ⟨'\x7b', true⟩ :: (inner ++ ⟨'\x7d', true⟩ :: post))) :
    0 < unopenedIn below := by
  obtain ⟨line, lines, hlines, hfirst⟩ := exists_first_line (a := pre ++ [⟨'\x7b', true⟩])
    (List.forall_mem_append.2 ⟨hpre, List.forall_mem_singleton.2 (by decide)⟩)
    (inner ++ ⟨'\x7d', true⟩ :: post)
  obtain ⟨upper, last, hlast⟩ := exists_last_line inner (s := ⟨'\x7d', true⟩ :: post)
    (List.forall_mem_cons.2 ⟨by decide, hpost⟩)
  rw [List.append_assoc, List.singleton_append] at hfirst
  rw [hfirst] at hbelow hall
  have hsuffix := ((List.suffix_cons_iff.1 hbelow).resolve_left hall).trans (List.suffix_cons line _)
  rw [← hlines] at hsuffix
  have hopen : ∀ x ∈ below.flatten, x.shown ≠ '\x7b' := by
    intro x hx
    obtain ⟨l, hl, hxl⟩ := List.mem_flatten.1 hx
    have hx : x ∈ (linesOf (inner ++ ⟨'\x7d', true⟩ :: post)).flatten :=
      List.mem_flatten.2 ⟨l, hsuffix.subset hl, hxl⟩
    rw [linesOf, flatten_cutAll] at hx
    rcases List.mem_append.1 (List.mem_filter.1 hx).1 with hx | hx
    · exact (hbraces x (by simp [hx])).1
    · rcases List.mem_cons.1 hx with rfl | hx
      · decide
      · exact (hbraces x (by simp [hx])).1
  rw [hlast] at hsuffix
  obtain rfl | ⟨t, rfl, -⟩ := List.suffix_concat_iff.1 hsuffix
  · exact absurd rfl hne
  rw [unopenedIn_eq]
  exact unopened_pos hopen ⟨⟨'\x7d', true⟩, by simp, rfl⟩

end Braces

/-- A line with a closing brace that does not begin with a number sign is none that the walk passes
over. -/
theorem ends_text {d : WrittenDisplay} (hd : d.IsWritten) {front post : List Cell}
    (hcells : cells d.text = front ++ ⟨'\x7d', true⟩ :: post) (hpost : ∀ x ∈ post, x.char ≠ '\n') :
    ∀ line ∈ (linesOf (cells d.text)).getLast?,
      isBlankLine line = false ∧ isDocumentation line = false := by
  obtain ⟨upper, last, hlines⟩ := exists_last_line front (s := ⟨'\x7d', true⟩ :: post)
    (List.forall_mem_cons.2 ⟨by decide, hpost⟩)
  rw [← hcells] at hlines
  rw [hlines]
  intro line hline
  obtain rfl : last ++ ⟨'\x7d', true⟩ :: post = line := by simpa using hline
  have hhash := isUnhashed_text hd (chars (last ++ ⟨'\x7d', true⟩ :: post)) (by
    rw [← chars_cells d.text, cutAll_chars]
    exact List.mem_map_of_mem (by simp [hlines]))
  rw [← head?_trim] at hhash
  exact ⟨isBlankLine_eq_false (x := ⟨'\x7d', true⟩) (by simp) (by decide),
    isDocumentation_eq_false hhash⟩

/-- Written with its brace on its first line, the annotation is read as one. -/
theorem isAnnotation_text {d : WrittenDisplay} (hd : d.IsWritten) (hgap : '\n' ∉ d.gap) :
    IsAnnotation (linesOf (cells d.text)) := by
  obtain ⟨pre, inner, post, hcells, hpre, hpost, hbraces⟩ := exists_cells hd
  have hfirst : ∀ x ∈ pre, x.char ≠ '\n' := by
    intro x hx hbreak
    have hmem : '\n' ∈ chars pre := List.mem_map.2 ⟨x, hx, hbreak⟩
    rw [hpre, List.mem_append, List.mem_append] at hmem
    rcases hmem with h | h | h
    · exact (hd.indent _ h).2 rfl
    · simp at h
    · exact hgap h
  have hlast : ∀ x ∈ post, x.char ≠ '\n' := fun x hx hbreak =>
    (hd.behind _ (hpost ▸ List.mem_map.2 ⟨x, hx, hbreak⟩)).2 rfl
  have hend : cells d.text = (pre ++ ⟨'\x7b', true⟩ :: inner) ++ ⟨'\x7d', true⟩ :: post := by
    rw [hcells, List.append_assoc, List.cons_append]
  refine ⟨?_, ends_text hd hend hlast, ?_, ?_⟩
  · obtain ⟨line, lines, -, hlines⟩ := exists_first_line hfirst
      (⟨'\x7b', true⟩ :: (inner ++ ⟨'\x7d', true⟩ :: post))
    have hmark : "@display".toList = '@' :: "display".toList := rfl
    refine ⟨_, by rw [hcells, hlines]; rfl, ?_⟩
    rw [startsAnnotated, Offset.chars_append, hpre, hmark, List.append_assoc,
      trimStart_blanks fun c hc => (hd.indent c hc).1, List.cons_append, List.cons_append,
      trimStart_cons (by decide)]
    rfl
  · rw [unopenedIn_linesOf, hcells, unopened_of_braces hbraces]
  · rw [hcells]
    exact fun below => unopenedIn_below hbraces hfirst hlast

/-- The walk passes over blank and documentation lines, as far as annotations go. -/
theorem annotations_above {lines : List (List Cell)}
    (h : ∀ line ∈ lines, isBlankLine line = true ∨ isDocumentation line = true)
    (up : List (List Cell)) :
    (above [] 0 (lines ++ up)).annotations = (above [] 0 up).annotations := by
  induction lines with
  | nil => rfl
  | cons line lines ih =>
    rw [List.forall_mem_cons] at h
    rw [List.cons_append]
    rcases h.1 with hblank | hdoc
    · rw [above_cons_of_blank hblank, ih h.2]
    · obtain ⟨text, htext⟩ := Option.isSome_iff_exists.1 hdoc
      rw [above_cons_of_documentation (isBlankLine_of_isDocumentation hdoc) htext, ih h.2]

/-- A text that is empty or ends its last line is in front of what follows line by line. -/
theorem exists_upper {a : List Cell} (ha : a = [] ∨ ∃ b x, a = b ++ [x] ∧ x.char = '\n') :
    ∃ upper, (∀ t, linesOf (a ++ t) = upper ++ linesOf t) ∧
      (ofBefore a).annotations = (above [] 0 upper.reverse).annotations := by
  rcases ha with rfl | ⟨b, x, rfl, hx⟩
  · exact ⟨[], fun t => rfl, rfl⟩
  · have hcut : ∀ t, linesOf (b ++ [x] ++ t) = linesOf b ++ linesOf t := by
      intro t
      rw [List.append_assoc, List.singleton_append]
      exact cutAll_append_cons (by simp [hx]) b t
    refine ⟨linesOf b, hcut, ?_⟩
    have hlast := hcut []
    rw [List.append_nil] at hlast
    rw [ofBefore, ← linesOf, hlast, List.reverse_append]
    rfl

end Leading

end Lines

/-- A line that is blank or holds documentation. -/
def IsCommentary (line : List Char) : Prop :=
  '\n' ∉ line ∧ ((trimStart line).head? = none ∨ (trimStart line).head? = some '#')

instance (line : List Char) : Decidable (IsCommentary line) :=
  inferInstanceAs (Decidable (_ ∧ _))

theorem isBlankLine_or_isDocumentation {line : List Cell} (h : IsCommentary (chars line)) :
    Leading.isBlankLine line = true ∨ Leading.isDocumentation line = true := by
  obtain ⟨-, h⟩ := h
  rw [← head?_trim] at h
  rcases h with h | h
  · exact .inl (by rw [Leading.isBlankLine, List.head?_eq_none_iff.1 h]; rfl)
  · obtain ⟨r, hr⟩ := List.head?_eq_some_iff.1 h
    refine .inr ?_
    rw [Leading.isDocumentation, Leading.documentation?, hr]
    unfold Leading.textAfterMark?
    split <;> first | rfl | simp_all

/-- What is read of a source up to a class, where an annotation and commentary stand above it. -/
theorem before_eq {t : List Char} {d : WrittenDisplay} {above w : List Char} {s r : List Cell}
    (ht : cells t = s ++ r) (hs : chars s = above ++ (d.text ++ '\n' :: w))
    (habove : above = [] ∨ above.getLast? = some '\n')
    (hcode : (Scan.start.final above).context = .code) :
    ∃ v, s = cells above ++ (cells d.text ++ ⟨'\n', true⟩ :: v) ∧ chars v = w := by
  have htext : t = above ++ (d.text ++ '\n' :: (w ++ chars r)) := by
    rw [← chars_cells t, ht, Offset.chars_append, hs]
    simp
  have hfront : ∀ b, cells (above ++ b) = cells above ++ cells b := by
    rcases habove with rfl | habove
    · exact fun b => rfl
    · exact cells_append_of_newline habove hcode
  have hbreak : ∀ b, cells (d.text ++ '\n' :: b) = cells d.text ++ ⟨'\n', true⟩
      :: (Scan.step (Scan.start.final d.text) '\n' (b.head? == some '/')).1.cells b := fun b =>
    (Scan.append_of_apart d.text ('\n' :: b) (.inr (by simp))).1
  rw [htext, hfront, hbreak] at ht
  -- both are what the source begins with, and the second is no shorter
  have hprefix : cells above ++ (cells d.text ++ [⟨'\n', true⟩]) <+: s := by
    refine List.prefix_of_prefix_length_le (?_ : _ <+: s ++ r) (List.prefix_append ..) ?_
    · rw [← ht, List.prefix_append_right_inj, List.prefix_append_right_inj]
      exact ⟨_, rfl⟩
    · have hlen := congrArg List.length hs
      simp only [chars, List.length_map, List.length_append, List.length_cons] at hlen
      simp only [cells, List.length_append, Scan.length_cells, List.length_singleton]
      omega
  obtain ⟨v, rfl⟩ := hprefix
  refine ⟨v, by simp, ?_⟩
  rw [Offset.chars_append, Offset.chars_append, Offset.chars_append, chars_cells, chars_cells,
    List.append_assoc, List.append_assoc] at hs
  exact (List.cons.inj (List.append_cancel_left (List.append_cancel_left hs))).2

/-- Above a class with an annotation and commentary, the annotation is found, below any others. -/
theorem annotationText_before {d : WrittenDisplay} {above indent : List Char}
    {below : List (List Char)} {v : List Cell} (hd : d.IsWritten) (hgap : '\n' ∉ d.gap)
    (habove : above = [] ∨ above.getLast? = some '\n')
    (hv : chars v = Leading.ended below ++ indent) (hbelow : ∀ line ∈ below, IsCommentary line)
    (hindent : ∀ x ∈ indent, isBlank x = true ∧ x ≠ '\n') :
    (Leading.ofBefore (cells above ++ (cells d.text ++ ⟨'\n', true⟩ :: v))).annotationText = d.text ∨
      (Leading.ofBefore (cells above ++ (cells d.text ++ ⟨'\n', true⟩ :: v))).annotationText
        = (Leading.ofBefore (cells above)).annotationText ++ '\n' :: d.text := by
  have habove : cells above = [] ∨ ∃ b x, cells above = b ++ [x] ∧ x.char = '\n' := by
    rcases habove with rfl | habove
    · exact .inl rfl
    · have hlast : (chars (cells above)).getLast? = some '\n' := by rw [chars_cells, habove]
      rw [chars, List.getLast?_map, Option.map_eq_some_iff] at hlast
      obtain ⟨x, hx, hbreak⟩ := hlast
      obtain ⟨b, hb⟩ := List.getLast?_eq_some_iff.1 hx
      exact .inr ⟨b, x, hb, hbreak⟩
  obtain ⟨upper, hupper, hannotations⟩ := Leading.exists_upper habove
  obtain ⟨block, a, tail, rfl, htail, hblock, hlines⟩ :=
    Leading.exists_block hv fun line hline => (hbelow line hline).1
  have hlast : linesOf tail = [tail] := by
    refine cutAll_eq_singleton fun x hx => beq_false_of_ne ?_
    exact (hindent x.char (htail ▸ List.mem_map_of_mem hx)).2
  have hblank : Leading.isBlankLine tail = true := by
    rw [Leading.isBlankLine, htail, trim_eq, trimStart_eq_nil fun c hc => (hindent c hc).1]
    rfl
  have hbreak : ∀ s, linesOf (cells d.text ++ ⟨'\n', true⟩ :: s)
      = linesOf (cells d.text) ++ linesOf s := fun s => cutAll_append_cons rfl _ s
  have hfound : (Leading.ofBefore (cells above ++ (cells d.text ++ ⟨'\n', true⟩
      :: (a ++ tail)))).annotations
        = (Leading.ofBefore (cells above)).annotations ++ cutAll (· == '\n') d.text := by
    rw [Leading.ofBefore, ← linesOf, hupper, hbreak, hlines, hlast, ← List.append_assoc,
      ← List.append_assoc, List.reverse_append, List.reverse_singleton, List.singleton_append]
    simp only [hblank, if_true]
    rw [List.reverse_append, List.reverse_append, Leading.annotations_above,
      Leading.above_annotated (Leading.isAnnotation_text hd hgap), hannotations, ← cutAll_chars,
      chars_cells]
    intro line hline
    refine isBlankLine_or_isDocumentation (hbelow _ ?_)
    rw [← hblock]
    exact List.mem_map_of_mem (List.mem_reverse.1 hline)
  rw [Leading.annotationText, hfound, Leading.annotationText]
  by_cases hnil : (Leading.ofBefore (cells above)).annotations = []
  · rw [hnil, List.nil_append, joinWith_cutAll]
    exact .inl rfl
  · rw [joinWith_append hnil (cutAll_ne_nil _ _), joinWith_cutAll]
    exact .inr rfl

variable {package : PackageName} {moduleName : String} {detail : Detail}

/-- A display annotation as it is written above a class, with documentation between them, is found
with its label and its icon, whatever stands above it that has no display annotation for the class. -/
theorem display_written {content : String} {d : WrittenDisplay} {above indent : List Char}
    {below : List (List Char)} {o : Occurrence ClassHeader} {c : Connector} (hd : d.IsWritten)
    (ho : o ∈ occurrences ClassHeader.read? (cells content.toList))
    (hc : Connector.ofOccurrence? package moduleName detail (cells content.toList) o = some c)
    (hbefore : chars o.before
      = above ++ (d.text ++ '\n' :: (Leading.ended below ++ indent)))
    (habove : above = [] ∨ above.getLast? = some '\n')
    (hcode : (Scan.start.final above).context = .code)
    (hnone : cutAround "@display".toList (Leading.ofBefore (cells above)).annotationText = none)
    (hbelow : ∀ line ∈ below, IsCommentary line)
    (hindent : ∀ x ∈ indent, isBlank x = true ∧ x ≠ '\n')
    (hgap : '\n' ∉ d.gap) (hbrace : '\x7d' ∉ d.label ++ d.iconPath)
    (hends : ¬ EndsInField d.second.1 d.first.2) :
    c ∈ connectorsOfSource package moduleName detail content ∧
      c.displayAnnotation = some ⟨some (String.ofList d.label), some (String.ofList d.iconPath)⟩ ∧
      c.displayName = String.ofList d.label := by
  obtain ⟨p, b, r, hsplit, -⟩ := split_of_mem_occurrences ClassHeader.headerReader ho
  obtain ⟨v, hv, hbelow'⟩ := before_eq hsplit hbefore habove hcode
  have htext := annotationText_before hd hgap habove hbelow' hbelow hindent
  rw [← hv] at htext
  have hdisplay := ofAnnotations?_text hd hbrace hends (htext.imp_right fun h => ⟨_, hnone, h⟩)
  refine ⟨List.mem_filterMap.2 ⟨o, ho, hc⟩, ?_⟩
  unfold Connector.ofOccurrence? at hc
  split at hc
  · obtain ⟨_, -, rfl⟩ := Option.map_eq_some_iff.1 hc
    simp [hdisplay]
  · cases hc

/-- An icon that ends in a word, above a label that has braces and looks like fields and comments. -/
theorem display_written_in_lines :
    let label := "\x7b #1 // iconPath: none, label".toList
    let d : WrittenDisplay := ⟨label, "a/label:x".toList, false, "\t".toList, " ".toList,
      "\n  iconPath:\"a/label:x\" ,\r\n  label : \"\x7b #1 // iconPath: none, label\"\n".toList, [' ']⟩
    let above := "# Before.\n".toList
    let below := ["  # Behind.".toList, [], "#".toList]
    let content := above ++ (d.text ++ '\n' :: (Leading.ended below
      ++ "public isolated client class A \x7b\n\x7d\n".toList))
    ∃ c ∈ connectorsOfSource ⟨"org", "pack", "1.0.0"⟩ "pack" .detailed (String.ofList content),
      c.displayAnnotation
          = some ⟨some "\x7b #1 // iconPath: none, label", some "a/label:x"⟩ ∧
        c.displayName = "\x7b #1 // iconPath: none, label" := by
  intro label d above below content
  have hclass : ((occurrences ClassHeader.read? (cells content)).any fun o =>
      chars o.before == above ++ (d.text ++ '\n' :: (Leading.ended below ++ [])) &&
        (Connector.ofOccurrence? ⟨"org", "pack", "1.0.0"⟩ "pack" .detailed (cells content) o).isSome)
      = true := by decide +kernel
  obtain ⟨o, ho, hfound⟩ := List.any_eq_true.1 hclass
  rw [Bool.and_eq_true, beq_iff_eq] at hfound
  obtain ⟨c, hc⟩ := Option.isSome_iff_exists.1 hfound.2
  have hcontent : cells content = cells (String.ofList content).toList := by
    rw [String.toList_ofList]
  rw [hcontent] at ho hc
  have hd : d.IsWritten := by decide +kernel
  obtain ⟨hmem, hdisplay, hname⟩ := display_written hd ho hc hfound.1 (.inr (by decide +kernel))
    (by decide +kernel) (by decide +kernel) (by decide +kernel) nofun (by decide +kernel)
    (by decide +kernel) (by decide +kernel)
  exact ⟨c, hmem, hdisplay, hname⟩

/-- Three annotations that are written so that their fields are not found: a closing brace in a value
ends the search, a value that ends in the name of the other field begins that field's value, and a line
with a brace first begins no annotation. -/
theorem display_misread :
    let displays := fun d : WrittenDisplay =>
      (connectorsOfSource ⟨"org", "pack", "1.0.0"⟩ "pack" .detailed
        (String.ofList (d.text ++ "\npublic client class A \x7b\n\x7d\n".toList))).map
        fun c => (c.displayAnnotation, c.displayName)
    let brace : WrittenDisplay := ⟨"a \x7d b".toList, "i.png".toList, true, [], [' '],
      " label: \"a \x7d b\", iconPath: \"i.png\" ".toList, []⟩
    let name : WrittenDisplay := ⟨"Web".toList, "label:".toList, false, [], [' '],
      " iconPath: \"label:\", label: \"Web\" ".toList, []⟩
    let line : WrittenDisplay := ⟨"Web".toList, "i.png".toList, true, [], ['\n'],
      " label: \"Web\", iconPath: \"i.png\" ".toList, []⟩
    brace.IsWritten ∧ displays brace = [(some ⟨none, none⟩, "A")] ∧
      name.IsWritten ∧ displays name = [(some ⟨some ", label: ", some "label:"⟩, ", label: ")] ∧
      line.IsWritten ∧ displays line = [(none, "A")] := by
  intro displays brace name line
  have hsource : ∀ d : WrittenDisplay, displays d =
      let source := cells (d.text ++ "\npublic client class A \x7b\n\x7d\n".toList)
      ((occurrences ClassHeader.read? source).filterMap
        (Connector.ofOccurrence? ⟨"org", "pack", "1.0.0"⟩ "pack" .detailed source)).map
          fun c => (c.displayAnnotation, c.displayName) := by
    intro d
    simp only [displays, connectorsOfSource, String.toList_ofList]
  rw [hsource, hsource, hsource]
  decide +kernel

end ConnectorCatalog
