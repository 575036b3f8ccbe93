import ConnectorCatalog.Proofs.Flat
import ConnectorCatalog.Proofs.Scan

/-!
# Parts of a scanned text

The cells of a part of a text are those that the part has from the state the scanner comes to it in
(`split_cells`). At a mark in code, a character that is neither blank nor begins anything, that
state is known (`cells_at_mark`). A text without quotes, number signs and slashes is all code
(`cells_of_isPlain`), and a comment shows as blanks and leaves the scanner at the start of a line
(`cells_comment`).
-/

namespace ConnectorCatalog

/-- A text without quotes, backticks, number signs and slashes. -/
def IsPlain (t : List Char) : Prop := ∀ c ∈ t, c ≠ '"' ∧ c ≠ '`' ∧ c ≠ '#' ∧ c ≠ '/'

instance (t : List Char) : Decidable (IsPlain t) := List.decidableBAll _ t

/-- A character that is code wherever it does not stand in a comment or literal, begins neither and
is no blank. -/
def IsMark (c : Char) : Prop := c ∉ ['"', '`', '#', '/', '\n', ' ', '\t', '\r']

instance (c : Char) : Decidable (IsMark c) := inferInstanceAs (Decidable (_ ∉ _))

/-- A line comment and the line break that ends it. -/
def comment (text : List Char) : List Char := '/' :: '/' :: (text ++ ['\n'])

theorem chars_cons (x : Cell) (s : List Cell) : chars (x :: s) = x.char :: chars s := rfl

theorem plain_append (t u : List Char) : plain (t ++ u) = plain t ++ plain u := List.map_append

theorem isPlain_append {t u : List Char} : IsPlain (t ++ u) ↔ IsPlain t ∧ IsPlain u := by
  simp only [IsPlain, List.forall_mem_append]

theorem isPlain_of_isBlank {t : List Char} (ht : ∀ c ∈ t, isBlank c = true) : IsPlain t := by
  intro c hc
  refine ⟨?_, ?_, ?_, ?_⟩ <;> rintro rfl <;> exact absurd (ht _ hc) (by decide)

namespace Scan

/-- In code, behind something on the line. -/
def inLine : Scan := ⟨.code, false⟩

theorem length_cells (s : Scan) (t : List Char) : (s.cells t).length = t.length := by
  rw [← List.length_map (f := Cell.char), ← chars, s.chars_cells]

/-- The cells of both parts of a text. -/
theorem split_cells {s : Scan} {t : List Char} {x y : List Cell} (h : s.cells t = x ++ y)
    (hy : (chars y).head? ≠ some '/') :
    s.cells (chars x) = x ∧ (s.final (chars x)).cells (chars y) = y := by
  have ht : t = chars x ++ chars y := by rw [← s.chars_cells t, h, chars, List.map_append]; rfl
  rw [ht, (append_of_apart _ _ (.inr hy)).1] at h
  exact List.append_inj h (by rw [length_cells, chars, List.length_map])

section Mark

variable {s : Scan} {c : Char}

theorem step_of_mark (hc : IsMark c) (hs : s.context = .code) (b : Bool) :
    s.step c b = (inLine, ⟨c, true⟩) := by
  simp only [IsMark, List.mem_cons, List.not_mem_nil, or_false, not_or] at hc
  obtain ⟨h1, h2, h3, h4, h5, h6, h7, h8⟩ := hc
  simp [Scan.step, Scan.read, hs, h1, h2, h3, h4, h5, h6, h7, h8, inLine]

theorem cells_mark (hc : IsMark c) (hs : s.context = .code) (t : List Char) :
    s.cells (c :: t) = ⟨c, true⟩ :: inLine.cells t := by
  rw [cells_cons, step_of_mark hc hs]

/-- Up to a mark that is met in code a text has its own cells, and behind it the scanner is in the
line. -/
theorem append_mark (hc : IsMark c) {t : List Char} (ht : (s.final t).context = .code)
    (r : List Char) : s.cells (t ++ c :: r) = s.cells t ++ ⟨c, true⟩ :: inLine.cells r ∧
      s.final (t ++ c :: r) = inLine.final r := by
  have hslash : (c :: r).head? ≠ some '/' := by
    rw [List.head?_cons, Ne, Option.some_inj]
    rintro rfl
    exact absurd hc (by decide)
  obtain ⟨hcells, hfinal⟩ := append_of_apart t (c :: r) (s := s) (.inr hslash)
  rw [hcells, hfinal, cells_mark hc ht, final_cons, step_of_mark hc ht]
  exact ⟨rfl, rfl⟩

/-- A mark is shown in code only. -/
theorem context_of_mark (hc : IsMark c) {b : Bool} (h : (s.step c b).2.isCode = true) :
    s.context = .code := by
  simp only [IsMark, List.mem_cons, List.not_mem_nil, or_false, not_or] at hc
  obtain ⟨h1, h2, -, -, h5, -⟩ := hc
  rw [step_of_ne_newline h5] at h
  cases hs : s.context with
  | code => rfl
  | string =>
    simp only [Scan.read, hs] at h
    split_ifs at h
  | template =>
    simp only [Scan.read, hs] at h
    split_ifs at h
  | lineComment => simp [Scan.read, hs] at h
  | documentation => simp [Scan.read, hs] at h
  | escaped => simp [Scan.read, hs] at h

/-- The cells before and behind a mark that is shown. -/
theorem cells_at_mark {t : List Char} {x y : List Cell} {p : Cell} (h : s.cells t = x ++ p :: y)
    (hc : IsMark c) (hp : p.shown = c) :
    s.cells (chars x) = x ∧ (s.final (chars x)).context = .code ∧ p = ⟨c, true⟩ ∧
      inLine.cells (chars y) = y := by
  have hcode : p.isCode = true := by
    by_contra hcode
    rw [Bool.not_eq_true] at hcode
    rw [Cell.shown_of_not_isCode hcode] at hp
    subst hp
    exact absurd hc (by decide)
  obtain rfl : p = ⟨c, true⟩ := by
    obtain ⟨d, isCode⟩ := p
    subst hcode
    rw [← hp]
    rfl
  obtain ⟨hx, hy⟩ := split_cells h (by
    rw [chars_cons, List.head?_cons, Ne, Option.some_inj]
    rintro rfl
    exact absurd hc (by decide))
  rw [chars_cons, cells_cons] at hy
  obtain ⟨hstep, -⟩ := List.cons.inj hy
  have hcontext := context_of_mark hc (by rw [hstep])
  rw [← cells_cons, cells_mark hc hcontext] at hy
  exact ⟨hx, hcontext, rfl, (List.cons.inj hy).2⟩

/-- Between two marks a text may be put in place of another one, if it leads back to code. -/
theorem cells_replace {t : List Char} {x e v : List Cell} {p y : Cell}
    (h : s.cells t = x ++ p :: (e ++ y :: v)) (hp : IsMark p.shown) (hy : IsMark y.shown)
    {e' : List Char} (he' : (inLine.final e').context = .code) :
    s.cells (chars (x ++ [p]) ++ (e' ++ chars (y :: v)))
      = x ++ p :: (inLine.cells e' ++ y :: v) := by
  obtain ⟨hx, hcode, hp', hrest⟩ := cells_at_mark h hp rfl
  obtain ⟨-, -, hy', hv⟩ := cells_at_mark hrest hy rfl
  have hslash : ∀ {c : Char} {r : List Char}, IsMark c → (c :: r).head? ≠ some '/' := by
    rintro c r hc hslash
    obtain rfl : c = '/' := Option.some_inj.1 hslash
    exact absurd hc (by decide)
  have htext : chars (x ++ [p]) ++ (e' ++ chars (y :: v))
      = chars x ++ p.shown :: (e' ++ y.shown :: chars v) := by
    rw [hp', hy']
    simp [chars, Cell.shown]
  rw [htext, (append_of_apart _ _ (.inr (hslash hp))).1, cells_mark hp hcode,
    (append_of_apart _ _ (.inr (hslash hy))).1, cells_mark hy he', hx, hv, ← hp', ← hy']

end Mark

section Plain

theorem apart_of_isPlain {s : Scan} {t : List Char} (ht : IsPlain t) (b : List Char) :
    s.Apart t b := by
  refine .inl (.inr fun h => ?_)
  exact (ht _ (List.mem_of_getLast? h)).2.2.2 rfl

/-- A plain text in code is all code. -/
theorem cells_of_isPlain {t : List Char} : ∀ {s : Scan}, s.context = .code → IsPlain t →
    s.cells t = plain t ∧ (s.final t).context = .code := by
  induction t with
  | nil => exact fun hs _ => ⟨rfl, hs⟩
  | cons c t ih =>
    intro s hs ht
    obtain ⟨h1, h2, h3, h4⟩ := ht c (List.mem_cons_self ..)
    have hstep : (s.step c (t.head? == some '/')).1.context = .code ∧
        (s.step c (t.head? == some '/')).2 = ⟨c, true⟩ := by
      by_cases hc : c = '\n'
      · subst hc
        simp [Scan.step, hs, afterNewline]
      · simp [Scan.step, Scan.read, hs, h1, h2, h3, h4, hc]
    obtain ⟨ih1, ih2⟩ := ih hstep.1 fun d hd => ht d (List.mem_cons_of_mem _ hd)
    rw [cells_cons, final_cons, hstep.2, ih1]
    exact ⟨rfl, ih2⟩

end Plain

section Comment

variable {text : List Char}

theorem cells_lineComment (ht : '\n' ∉ text) (f : Bool) :
    (∀ x ∈ Scan.cells ⟨.lineComment, f⟩ (text ++ ['\n']), x.isBlankCode = true) ∧
      Scan.final ⟨.lineComment, f⟩ (text ++ ['\n']) = start := by
  induction text generalizing f with
  | nil =>
    refine ⟨fun x hx => ?_, rfl⟩
    rw [List.nil_append, cells_cons, Scan.cells, List.mem_singleton] at hx
    rw [hx]
    rfl
  | cons c text ih =>
    rw [List.mem_cons, not_or] at ht
    obtain ⟨ih1, ih2⟩ := ih ht.2 (f && (c == ' ' || c == '\t' || c == '\r'))
    rw [List.cons_append, cells_cons, final_cons, step_of_ne_newline (Ne.symm ht.1)]
    refine ⟨fun x hx => ?_, ih2⟩
    rcases List.mem_cons.1 hx with rfl | hx
    · rfl
    · exact ih1 x hx

/-- A comment shows as blanks. -/
theorem cells_comment {s : Scan} (hs : s.context = .code) (ht : '\n' ∉ text) :
    (∀ x ∈ s.cells (comment text), x.isBlankCode = true) ∧ s.final (comment text) = start := by
  obtain ⟨h1, h2⟩ := cells_lineComment ht false
  have hfirst : s.step '/' true = (⟨.lineComment, false⟩, ⟨'/', false⟩) := by
    simp [Scan.step, Scan.read, hs]
  rw [comment, cells_cons, final_cons, List.head?_cons, beq_self_eq_true, hfirst, cells_cons,
    final_cons, step_of_ne_newline (by decide)]
  refine ⟨fun x hx => ?_, h2⟩
  simp only [List.mem_cons] at hx
  rcases hx with rfl | rfl | hx
  · rfl
  · rfl
  · exact h1 x hx

/-- A character that may stand before a documentation line. -/
def isIndent (c : Char) : Bool := c == ' ' || c == '\t' || c == '\r'

/-- A text that does not begin with a documentation line has the same cells at the start of a line
and in it. -/
theorem cells_start_eq {t : List Char} (ht : (t.dropWhile isIndent).head? ≠ some '#') {s : Scan}
    (hs : s.context = .code) : s.cells t = start.cells t := by
  obtain ⟨context, f⟩ := s
  obtain rfl : context = .code := hs
  induction t with
  | nil => rfl
  | cons c t ih =>
    by_cases hc : c = '\n'
    · subst hc
      rfl
    rw [cells_cons, cells_cons, step_of_ne_newline hc, step_of_ne_newline hc]
    have hhash : c ≠ '#' := by
      rintro rfl
      exact ht rfl
    have hread : Scan.read ⟨.code, f⟩ c (t.head? == some '/')
        = start.read c (t.head? == some '/') := by
      simp only [Scan.read, start, hhash, false_and, if_false]
    rw [hread]
    cases hi : isIndent c with
    | true =>
      -- blanks keep the line at its start, and are read as code
      rw [List.dropWhile_cons, if_pos hi] at ht
      rw [isIndent] at hi
      have hcode : start.read c (t.head? == some '/') = (.code, true) := by
        simp only [Bool.or_eq_true, beq_iff_eq] at hi
        obtain (rfl | rfl) | rfl := hi <;> rfl
      rw [hi, hcode, Bool.and_true]
      exact congrArg _ (ih ht)
    | false =>
      rw [isIndent] at hi
      rw [hi, Bool.and_false, Bool.and_false]

/-- A comment that is written in code, neither directly behind a slash nor in front of what would be
a documentation line behind a line break, shows as blanks and leaves the other cells as they are. -/
theorem cells_insert_comment {s : Scan} {t : List Char} {u v : List Cell} (h : s.cells t = u ++ v)
    (hcode : (s.final (chars u)).context = .code) (hslash : (chars u).getLast? ≠ some '/')
    (hmark : ((chars v).dropWhile isIndent).head? ≠ some '#') (ht : '\n' ∉ text) :
    ∃ xs, (∀ x ∈ xs, x.isBlankCode = true) ∧ chars xs = comment text ∧
      s.cells (chars u ++ (comment text ++ chars v)) = u ++ (xs ++ v) := by
  have htext : t = chars u ++ chars v := by
    rw [← s.chars_cells t, h, chars, List.map_append]
    rfl
  rw [htext, cells_append _ _ (.inr hslash)] at h
  obtain ⟨hu, hv⟩ := List.append_inj h (by rw [length_cells, chars, List.length_map])
  obtain ⟨hblank, hfinal⟩ := cells_comment hcode ht
  have hlast : (comment text).getLast? ≠ some '/' := by
    rw [comment, ← List.cons_append, ← List.cons_append, List.getLast?_concat]
    decide
  rw [cells_start_eq hmark hcode] at hv
  refine ⟨_, hblank, chars_cells _ _, ?_⟩
  rw [cells_append _ _ (.inr hslash), hu, cells_append _ _ (.inr hlast), hfinal, hv]

end Comment

end Scan

end ConnectorCatalog
