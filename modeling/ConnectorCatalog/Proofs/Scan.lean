import ConnectorCatalog.Source.Cell
import Mathlib.Tactic.ByContra
import Mathlib.Tactic.SplitIfs

/-!
# Scanning one text after another

The scanner looks one character ahead, and only past a slash in code. So a text may be scanned in two
parts wherever the first part does not end in such a slash (`cells_append`), and of the state it goes
on from only the context counts, in code also whether the line has begun (`cells_of_agree`).
-/

namespace ConnectorCatalog

namespace Scan

theorem cells_cons (s : Scan) (c : Char) (t : List Char) :
    s.cells (c :: t) = (s.step c (t.head? == some '/')).2
      :: (s.step c (t.head? == some '/')).1.cells t := rfl

theorem final_cons (s : Scan) (c : Char) (t : List Char) :
    s.final (c :: t) = (s.step c (t.head? == some '/')).1.final t := rfl

theorem step_of_ne_newline {s : Scan} {c : Char} (hc : c ≠ '\n') (slashNext : Bool) :
    s.step c slashNext = (⟨(s.read c slashNext).1,
      s.atLineStart && (c == ' ' || c == '\t' || c == '\r')⟩, ⟨c, (s.read c slashNext).2⟩) := by
  rw [Scan.step, if_neg hc]

/-- What follows counts only after a slash in code. -/
theorem step_slashNext {s : Scan} {c : Char} (h : s.context ≠ .code ∨ c ≠ '/') (b b' : Bool) :
    s.step c b = s.step c b' := by
  have hread : s.read c b = s.read c b' := by
    unfold Scan.read
    rcases h with h | h
    · split <;> first | exact absurd ‹_› h | rfl
    · simp only [h, false_and, if_false]
  unfold Scan.step
  rw [hread]

/-- A slash in code that none follows is code. -/
theorem context_of_slash {s : Scan} (h : s.context = .code) :
    (s.step '/' false).1.context = .code := by
  simp [Scan.step, Scan.read, h]

/-- The last character of a text may be read without what follows the text. -/
def Settled (s : Scan) (t : List Char) : Prop :=
  (s.final t).context ≠ .code ∨ t.getLast? ≠ some '/'

theorem step_of_settled {s : Scan} {c : Char} (h : s.Settled [c]) (b : Bool) :
    s.step c b = s.step c false := by
  refine step_slashNext ?_ b false
  by_contra hc
  simp only [not_or, ne_eq, not_not] at hc
  obtain ⟨hctx, rfl⟩ := hc
  rcases h with h | h
  · exact h (context_of_slash hctx)
  · exact h rfl

/-- The cells of a text are those it has with another text behind it. -/
def Apart (s : Scan) (a b : List Char) : Prop := s.Settled a ∨ b.head? ≠ some '/'

/-- Two texts one after the other. -/
theorem append_of_apart : ∀ (a b : List Char) {s : Scan}, s.Apart a b →
    s.cells (a ++ b) = s.cells a ++ (s.final a).cells b ∧ s.final (a ++ b) = (s.final a).final b
  | [], b, s, _ => ⟨rfl, rfl⟩
  | [c], b, s, h => by
    have hstep : s.step c (b.head? == some '/') = s.step c false := by
      rcases h with h | h
      · exact step_of_settled h _
      · rw [beq_eq_false_iff_ne.2 h]
    constructor
    · rw [List.singleton_append, cells_cons, hstep]
      rfl
    · rw [List.singleton_append, final_cons, hstep]
      rfl
  | c :: d :: a, b, s, h => by
    have ih := append_of_apart (d :: a) b (s := (s.step c (some d == some '/')).1) (by
      rwa [Apart, Settled, List.getLast?_cons_cons, final_cons] at h)
    rw [List.cons_append, cells_cons, cells_cons, final_cons, final_cons, List.cons_append]
    exact ⟨congrArg _ ih.1, ih.2⟩

theorem cells_append (a b : List Char) {s : Scan} (h : s.Settled a) :
    s.cells (a ++ b) = s.cells a ++ (s.final a).cells b := (append_of_apart a b (.inl h)).1

/-- States from which the scanner goes on alike. -/
def Agree (s s' : Scan) : Prop :=
  s.context = s'.context ∧ (s.context = .code → s.atLineStart = s'.atLineStart)

theorem agree_step {s s' : Scan} (h : s.Agree s') (c : Char) (b : Bool) :
    (s.step c b).2 = (s'.step c b).2 ∧ (s.step c b).1.Agree (s'.step c b).1 := by
  obtain ⟨ctx, start⟩ := s
  obtain ⟨ctx', start'⟩ := s'
  obtain ⟨rfl, hstart⟩ := h
  by_cases hc : c = '\n'
  · subst hc
    exact ⟨rfl, rfl, fun _ => rfl⟩
  rw [step_of_ne_newline hc, step_of_ne_newline hc]
  by_cases hcode : ctx = .code
  · obtain rfl := hstart hcode
    exact ⟨rfl, rfl, fun _ => rfl⟩
  have hread : Scan.read ⟨ctx, start⟩ c b = Scan.read ⟨ctx, start'⟩ c b := by
    cases ctx <;> first | exact absurd rfl hcode | rfl
  refine ⟨by rw [hread], by rw [hread], fun hnext => ?_⟩
  have hquote : c = '"' ∨ c = '`' := by
    cases ctx with
    | code => exact absurd rfl hcode
    | string =>
      simp only [Scan.read] at hnext
      split_ifs at hnext with h1 h2
      exact .inl h2
    | template =>
      simp only [Scan.read] at hnext
      split_ifs at hnext with h1
      exact .inr h1
    | lineComment => cases hnext
    | documentation => cases hnext
    | escaped => cases hnext
  rcases hquote with rfl | rfl <;> simp

/-- From states that agree, a text has the same cells. -/
theorem cells_of_agree {s s' : Scan} (h : s.Agree s') (t : List Char) :
    s.cells t = s'.cells t := by
  induction t generalizing s s' with
  | nil => rfl
  | cons c t ih =>
    obtain ⟨h1, h2⟩ := agree_step h c (t.head? == some '/')
    rw [cells_cons, cells_cons, h1, ih h2]

end Scan

end ConnectorCatalog
