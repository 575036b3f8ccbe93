import ConnectorCatalog.Proofs.Flat
import ConnectorCatalog.Proofs.Scan

/-!
# A masked text is masked already

A second pass of the scanner meets blanks where the first one met comments, documentation and the
contents of literals. It stays in code where the first one was in a comment, and inside a literal
where the first one was inside of it (`Scan.Follows`), so it finds the same quotes and backticks, and
nothing else to blank (`mask_mask`).
-/

namespace ConnectorCatalog

/-- What a second pass is inside of where the first one is inside of `context`. -/
def Context.remasked : Context → Context
  | .code | .lineComment | .documentation => .code
  | .string | .escaped => .string
  | .template => .template

/-- The cells of a text, each with what the scanner is inside of in front of it. -/
def Scan.trace (s : Scan) : List Char → List (Context × Cell)
  | [] => []
  | c :: r =>
    let (s', x) := s.step c (r.head? == some '/')
    (s.context, x) :: s'.trace r

/-- How a second pass reads what a cell shows, byte for byte if the cell is not code. -/
def retraced (p : Context × Cell) : List (Context × Cell) :=
  p.2.masked.map fun c => (p.1.remasked, ⟨c, p.2.isCode || p.1.remasked == .code⟩)

namespace Scan

theorem trace_cons (s : Scan) (c : Char) (t : List Char) :
    s.trace (c :: t) = (s.context, (s.step c (t.head? == some '/')).2)
      :: (s.step c (t.head? == some '/')).1.trace t := rfl

theorem map_trace (s : Scan) (t : List Char) : (s.trace t).map Prod.snd = s.cells t := by
  induction t generalizing s with
  | nil => rfl
  | cons c t ih => rw [trace_cons, cells_cons, List.map_cons, ih]

/-- The state `s'` of a second pass goes with the state `s` of the first one. The start of a line
counts in code only. -/
def Follows (s' s : Scan) : Prop :=
  s'.context = s.context.remasked ∧ (s.context = .code → s'.atLineStart = s.atLineStart)

section Step

variable {s s' : Scan} {c : Char} {b : Bool}

/-- Where a character other than a line break is code. -/
theorem read_of_isCode (h : (s.read c b).2 = true) :
    (s.context = .code ∧ ¬ (c = '/' ∧ b = true) ∧ ¬ (c = '#' ∧ s.atLineStart = true)) ∨
      (s.context = .string ∧ c = '"') ∨ (s.context = .template ∧ c = '`') := by
  unfold Scan.read at h
  split at h
  · rename_i hs
    split_ifs at h with h1 h2 <;> exact .inl ⟨hs, h1, h2⟩
  · cases h
  · cases h
  · rename_i hs
    split_ifs at h with h1 h2
    exact .inr (.inl ⟨hs, h2⟩)
  · cases h
  · rename_i hs
    split_ifs at h with h1
    exact .inr (.inr ⟨hs, h1⟩)

/-- A character that is not code leads away from code, and for a second pass nowhere. -/
theorem read_of_not_isCode (h : (s.read c b).2 = false) :
    (s.read c b).1 ≠ .code ∧ (s.read c b).1.remasked = s.context.remasked := by
  obtain ⟨context, start⟩ := s
  cases context with
  | lineComment | documentation | escaped => simp [Scan.read, Context.remasked]
  | code | string | template =>
    simp only [Scan.read] at h ⊢
    split_ifs at h ⊢ <;> exact ⟨by decide, rfl⟩

theorem step_of_not_isCode (h : (s.step c b).2.isCode = false) :
    (s.step c b).1.context ≠ .code ∧ (s.step c b).1.context.remasked = s.context.remasked := by
  by_cases hc : c = '\n'
  · rw [Scan.step, if_pos hc] at h
    cases h
  · rw [step_of_ne_newline hc] at h ⊢
    exact read_of_not_isCode h

/-- A character that is code is code in a second pass too. -/
theorem step_of_isCode (hs : s'.Follows s) (h : (s.step c b).2.isCode = true) {b' : Bool}
    (hb : b' = true → b = true) :
    (s'.step c b').2 = ⟨c, true⟩ ∧ (s'.step c b').1.Follows (s.step c b).1 := by
  obtain ⟨hcontext, hstart⟩ := hs
  by_cases hc : c = '\n'
  · subst hc
    refine ⟨rfl, ?_, fun _ => rfl⟩
    rw [Scan.step, if_pos rfl, Scan.step, if_pos rfl]
    change afterNewline s'.context = (afterNewline s.context).remasked
    rw [hcontext]
    cases s.context <;> rfl
  · rw [step_of_ne_newline hc] at h ⊢
    rw [step_of_ne_newline hc]
    obtain ⟨hs, hslash, hsign⟩ | ⟨hs, rfl⟩ | ⟨hs, rfl⟩ := read_of_isCode h
    · have hread : s'.read c b' = s.read c b := by
        rw [hs] at hcontext
        have hslash' : ¬ (c = '/' ∧ b' = true) := fun h => hslash ⟨h.1, hb h.2⟩
        simp only [Scan.read, hcontext, hs, hstart hs, Context.remasked, if_neg hslash, if_neg hslash']
      have hfollows : (s.read c b).1.remasked = (s.read c b).1 := by
        simp only [Scan.read, hs, if_neg hslash, if_neg hsign]
        split_ifs <;> rfl
      rw [hread, hstart hs]
      exact ⟨congrArg _ h, hfollows.symm, fun _ => rfl⟩
    · rw [hs] at hcontext
      simp [Scan.read, hcontext, hs, Follows, Context.remasked]
    · rw [hs] at hcontext
      simp [Scan.read, hcontext, hs, Follows, Context.remasked]

/-- A blank leaves a second pass where it is. -/
theorem step_blank (hs : s'.Follows s) (b : Bool) :
    s'.step ' ' b = (s', ⟨' ', s.context.remasked == .code⟩) := by
  obtain ⟨context', start'⟩ := s'
  obtain ⟨rfl, -⟩ := hs
  cases s.context <;> cases start' <;> rfl

end Step

/-- A slash that shows is one of the text. -/
theorem head?_masked {s : Scan} {t : List Char} (h : (masked (s.cells t)).head? = some '/') :
    t.head? = some '/' := by
  cases t with
  | nil => cases h
  | cons c t =>
    rw [cells_cons, masked_cons, Cell.masked] at h
    split_ifs at h
    · rwa [step_char] at h
    · obtain ⟨n, hn⟩ := Nat.exists_eq_succ_of_ne_zero (Nat.ne_of_gt
        (s.step c (t.head? == some '/')).2.char.utf8Size_pos)
      rw [hn, List.replicate_succ] at h
      cases h

/-- Blanks leave a second pass where it is. -/
theorem trace_blanks {s s' : Scan} (hs : s'.Follows s) (n : Nat) (t : List Char) :
    s'.trace (List.replicate n ' ' ++ t)
        = List.replicate n (s.context.remasked, ⟨' ', s.context.remasked == .code⟩) ++ s'.trace t ∧
      s'.final (List.replicate n ' ' ++ t) = s'.final t := by
  induction n with
  | zero => exact ⟨rfl, rfl⟩
  | succ n ih =>
    rw [List.replicate_succ, List.cons_append, trace_cons, final_cons, step_blank hs, ih.1, ih.2, hs.1]
    exact ⟨rfl, rfl⟩

/-- A second pass reads what is shown of each cell in turn, and its state goes with that of the first
pass to the end. -/
theorem trace_masked {s s' : Scan} (hs : s'.Follows s) (t : List Char) :
    s'.trace (masked (s.cells t)) = (s.trace t).flatMap retraced ∧
      (s'.final (masked (s.cells t))).Follows (s.final t) := by
  induction t generalizing s s' with
  | nil => exact ⟨rfl, hs⟩
  | cons c t ih =>
    have hchar := s.step_char c (t.head? == some '/')
    rw [cells_cons, masked_cons, trace_cons, final_cons, List.flatMap_cons]
    cases hcode : (s.step c (t.head? == some '/')).2.isCode with
    | true =>
      have hslash : ((masked ((s.step c (t.head? == some '/')).1.cells t)).head? == some '/') = true →
          (t.head? == some '/') = true := by
        rw [beq_iff_eq, beq_iff_eq]
        exact head?_masked
      obtain ⟨hcell, hnext⟩ := step_of_isCode hs hcode hslash
      obtain ⟨htrace, hfinal⟩ := ih hnext
      rw [Cell.masked, hcode, if_pos rfl, hchar, List.singleton_append, trace_cons, final_cons, hcell,
        htrace, hs.1]
      refine ⟨?_, hfinal⟩
      rw [retraced, Cell.masked, hcode, if_pos rfl, hchar]
      rfl
    | false =>
      obtain ⟨hne, hcontext⟩ := step_of_not_isCode hcode
      have hnext : s'.Follows (s.step c (t.head? == some '/')).1 :=
        ⟨by rw [hcontext, hs.1], fun h => absurd h hne⟩
      obtain ⟨htrace, hfinal⟩ := ih hnext
      rw [Cell.masked, hcode, if_neg Bool.false_ne_true, (trace_blanks hs _ _).1,
        (trace_blanks hs _ _).2, htrace]
      refine ⟨?_, hfinal⟩
      rw [retraced, Cell.masked, hcode, if_neg Bool.false_ne_true, List.map_replicate]
      rfl

theorem start_follows : Scan.start.Follows Scan.start := ⟨rfl, fun _ => rfl⟩

/-- A part of a text has the cells that it has from some state. -/
theorem exists_cells_append (s : Scan) (a r : List Char) :
    ∃ s' x, s.cells (a ++ r) = x ++ Scan.cells s' r := by
  induction a generalizing s with
  | nil => exact ⟨s, [], rfl⟩
  | cons c a ih =>
    rw [List.cons_append, cells_cons]
    obtain ⟨s', x, hx⟩ := ih (s.step c ((a ++ r).head? == some '/')).1
    exact ⟨s', _ :: x, by rw [hx, List.cons_append]⟩

/-- The first of two slashes is never code. -/
theorem step_slashes (s : Scan) : (s.step '/' true).2.isCode = false := by
  obtain ⟨context, start⟩ := s
  cases context <;> rfl

/-- A number sign at the start of a line is never code. -/
theorem step_numberSign {s : Scan} (hs : s.atLineStart = true) (b : Bool) :
    (s.step '#' b).2.isCode = false := by
  obtain ⟨context, start⟩ := s
  subst hs
  cases context <;> rfl

/-- A backslash is not code where a string goes on behind it. -/
theorem isCode_of_mem_trace {s : Scan} {t : List Char} {p : Context × Cell} (hp : p ∈ s.trace t)
    (hcontext : p.1.remasked = .string) (hchar : p.2.char = '\\') : p.2.isCode = false := by
  induction t generalizing s with
  | nil => cases hp
  | cons c t ih =>
    rw [trace_cons, List.mem_cons] at hp
    obtain rfl | hp := hp
    · obtain rfl : c = '\\' := by rw [← s.step_char c, hchar]
      obtain ⟨context, start⟩ := s
      cases context <;> first | rfl | cases hcontext
    · exact ih hp

end Scan

theorem masked_eq_chars {s : List Cell} (hs : ∀ x ∈ s, x.isCode = true ∨ x.char = ' ') :
    masked s = chars s := by
  induction s with
  | nil => rfl
  | cons x s ih =>
    obtain ⟨hx, hs⟩ := List.forall_mem_cons.1 hs
    have hmasked : x.masked = [x.char] := by
      obtain ⟨c, isCode⟩ := x
      obtain rfl | rfl := hx
      · rfl
      · cases isCode <;> rfl
    rw [masked_cons, ih hs, hmasked]
    rfl

section Second

variable {t : List Char}

theorem trace_second (t : List Char) :
    Scan.start.trace (masked (cells t)) = (Scan.start.trace t).flatMap retraced :=
  (Scan.trace_masked Scan.start_follows t).1

/-- A second pass has nothing but code and spaces. -/
theorem isCode_or_space {x : Cell} (hx : x ∈ cells (masked (cells t))) :
    x.isCode = true ∨ x.char = ' ' := by
  rw [cells, ← Scan.map_trace, trace_second, List.mem_map] at hx
  obtain ⟨q, hq, rfl⟩ := hx
  obtain ⟨p, -, hq⟩ := List.mem_flatMap.1 hq
  obtain ⟨c, hc, rfl⟩ := List.mem_map.1 hq
  rw [Cell.masked] at hc
  split_ifs at hc with hcode
  · exact .inl (by rw [hcode]; rfl)
  · exact .inr (List.eq_of_mem_replicate hc)

theorem not_mem_of_not_isCode {x : Cell} (hcode : x.isCode = false) (hspace : x.char ≠ ' ') :
    x ∉ cells (masked (cells t)) := by
  intro hx
  obtain h | h := isCode_or_space hx
  · rw [hcode] at h
    cases h
  · exact hspace h

/-- No comment begins in a masked text. -/
theorem not_slashes_masked : ¬ ['/', '/'] <:+: masked (cells t) := by
  rintro ⟨a, b, h⟩
  rw [List.append_assoc] at h
  obtain ⟨s, x, hx⟩ := Scan.start.exists_cells_append a ('/' :: '/' :: b)
  refine not_mem_of_not_isCode s.step_slashes ?_ (t := t) ?_
  · rw [Scan.step_char]
    decide
  · rw [← h]
    change _ ∈ Scan.start.cells (a ++ '/' :: '/' :: b)
    rw [hx]
    exact List.mem_append_right _ (List.mem_cons_self ..)

/-- No line of a masked text has a number sign first. -/
theorem atLineStart_before_numberSign {a b : List Char} (h : masked (cells t) = a ++ '#' :: b) :
    (Scan.start.final a).atLineStart = false := by
  by_contra hstart
  rw [Bool.not_eq_false] at hstart
  have hcells := (Scan.append_of_apart a ('#' :: b) (s := Scan.start) (.inr (by simp))).1
  refine not_mem_of_not_isCode (Scan.step_numberSign hstart (b.head? == some '/')) ?_ (t := t) ?_
  · rw [Scan.step_char]
    decide
  · rw [h, cells, hcells, Scan.cells_cons]
    exact List.mem_append_right _ (List.mem_cons_self ..)

/-- No string of a masked text holds a backslash. -/
theorem char_ne_backslash {q : Context × Cell} (hq : q ∈ Scan.start.trace (masked (cells t)))
    (hcontext : q.1 = .string) : q.2.char ≠ '\\' := by
  rw [trace_second] at hq
  obtain ⟨p, hp, hq⟩ := List.mem_flatMap.1 hq
  obtain ⟨c, hc, rfl⟩ := List.mem_map.1 hq
  intro hchar
  rw [Cell.masked] at hc
  split_ifs at hc with hcode
  · rw [List.mem_singleton] at hc
    rw [Scan.isCode_of_mem_trace hp hcontext (by rw [← hc]; exact hchar)] at hcode
    cases hcode
  · rw [List.eq_of_mem_replicate hc] at hchar
    cases hchar

end Second

/-- Masking a masked text changes nothing. A second pass is in code or in a literal wherever the first
one was in code, in a comment or in that literal, quote for quote and backtick for backtick, and it
meets no comment, no number sign at the start of a line and no escape. -/
theorem mask_mask (source : String) :
    mask (mask source) = mask source ∧
      Scan.start.trace (mask source).toList = (Scan.start.trace source.toList).flatMap retraced ∧
      (Scan.start.final (mask source).toList).context
        = (Scan.start.final source.toList).context.remasked ∧
      ¬ ['/', '/'] <:+: (mask source).toList ∧
      (∀ a b, (mask source).toList = a ++ '#' :: b → (Scan.start.final a).atLineStart = false) ∧
      ∀ p ∈ Scan.start.trace (mask source).toList, p.1 = .string → p.2.char ≠ '\\' := by
  have htext : (mask source).toList = masked (cells source.toList) := String.toList_ofList
  rw [htext]
  refine ⟨?_, trace_second _, ?_, not_slashes_masked, fun a b => atLineStart_before_numberSign,
    fun p => char_ne_backslash⟩
  · rw [mask, htext, masked_eq_chars fun x => isCode_or_space, chars_cells]
    rfl
  · exact (Scan.trace_masked Scan.start_follows _).2.1

end ConnectorCatalog
