import ConnectorCatalog.Source.Header

/-!
# Readers look at what cells show

The readers of a header look at what its cells show, and of blanks only at whether there are any. A
header moreover never goes past a brace, an opening parenthesis or a semicolon. So readers do alike
on texts that are alike in this sense (`Alike`): both read nothing, or both read the same and leave
rests that are alike again (`Alike.classHeader`).
-/

namespace ConnectorCatalog

/-- A character past which no header goes. -/
def isStop (c : Char) : Bool := endsSignature c

/-- Texts related by `R` show the same up to the first stop, runs of blanks counting as one. -/
structure Alike (R : List Cell → List Cell → Prop) : Prop where
  nil : ∀ {s'}, R [] s' → s' = []
  cons : ∀ {x r s'}, R (x :: r) s' → x.isBlankCode = false →
    ∃ x' r', s' = x' :: r' ∧ x'.shown = x.shown ∧ (isStop x.shown = false → R r r')
  blank : ∀ {x r s'}, R (x :: r) s' → x.isBlankCode = true →
    ∃ b bs r', s' = b :: bs ++ r' ∧ (∀ y ∈ b :: bs, y.isBlankCode = true) ∧ R r r'

/-- Readings of the same thing that leave alike rests. -/
def SameReading {β : Type} (R : List Cell → List Cell → Prop) :
    Option (β × List Cell) → Option (β × List Cell) → Prop :=
  Option.Rel fun p q => p.1 = q.1 ∧ R p.2 q.2

/-- A word that a reader may look for. -/
def IsKeyword (w : List Char) : Prop := ∀ c ∈ w, isBlank c = false ∧ isStop c = false

instance (w : List Char) : Decidable (IsKeyword w) := List.decidableBAll _ w

theorem shown_ne_of_isBlankCode {x : Cell} (hx : x.isBlankCode = true) {c : Char}
    (hc : isBlank c = false) : x.shown ≠ c := by
  rintro rfl
  rw [← Cell.isBlankCode, hx] at hc
  cases hc

theorem afterBlanks_cons_of_blank {x : Cell} (hx : x.isBlankCode = true) (s : List Cell) :
    afterBlanks (x :: s) = afterBlanks s := by
  rw [afterBlanks, List.dropWhile_cons, if_pos hx, afterBlanks]

theorem afterBlanks_cons_of_not_blank {x : Cell} (hx : x.isBlankCode = false) (s : List Cell) :
    afterBlanks (x :: s) = x :: s := by
  rw [afterBlanks, List.dropWhile_cons, if_neg (by rw [hx]; exact Bool.false_ne_true)]

theorem afterBlanks_append {b : List Cell} (hb : ∀ x ∈ b, x.isBlankCode = true) (s : List Cell) :
    afterBlanks (b ++ s) = afterBlanks s := by
  induction b with
  | nil => rfl
  | cons x b ih =>
    rw [List.cons_append, afterBlanks_cons_of_blank (hb x (List.mem_cons_self ..)),
      ih fun y hy => hb y (List.mem_cons_of_mem _ hy)]

theorem qualifiers_of_none {ws : List String} {s : List Cell} (h : oneOf? ws s = none) :
    qualifiers ws s = ([], s) := by
  rw [qualifiers]
  split
  · rfl
  · rename_i w r hs
    rw [h] at hs
    cases hs

theorem qualifiers_of_some {ws : List String} {s r : List Cell} {w : String}
    (h : oneOf? ws s = some (w, r)) :
    qualifiers ws s = (w :: (qualifiers ws r).1, (qualifiers ws r).2) := by
  rw [qualifiers]
  split
  · rename_i hs
    rw [h] at hs
    cases hs
  · rename_i w' r' hs
    rw [h] at hs
    cases hs
    rfl

theorem isNameChar_of_isBlank {c : Char} (h : isBlank c = true) : isNameChar c = false := by
  rw [Bool.eq_false_iff]
  intro hn
  simp only [isBlank, Bool.or_eq_true, Bool.and_eq_true, decide_eq_true_eq, beq_iff_eq] at h
  unfold isNameChar at hn
  delta Char.isAlphanum Char.isAlpha Char.isUpper Char.isLower Char.isDigit at hn
  simp only [Bool.or_eq_true, Bool.and_eq_true, decide_eq_true_eq, beq_iff_eq,
    UInt32.le_iff_toNat_le, ge_iff_le] at hn
  have hc : c.toNat = c.val.toNat := rfl
  rcases hn with ((hn | hn) | hn) | rfl
  · have : 'A'.val.toNat = 65 := rfl
    have : 'Z'.val.toNat = 90 := rfl
    omega
  · have : 'a'.val.toNat = 97 := rfl
    have : 'z'.val.toNat = 122 := rfl
    omega
  · have : '0'.val.toNat = 48 := rfl
    have : '9'.val.toNat = 57 := rfl
    omega
  · have : '_'.toNat = 95 := rfl
    omega

theorem isNameChar_of_isNameStart {c : Char} (h : isNameStart c = true) : isNameChar c = true := by
  simp only [isNameStart, isNameChar, Bool.or_eq_true] at h ⊢
  exact h.imp_left fun h => Bool.or_eq_true_iff.2 (.inl h)

/-- The four characters past which no header goes. -/
theorem isStop_cases {c : Char} (h : isStop c = true) :
    ((c = '(' ∨ c = ';') ∨ c = '\x7b') ∨ c = '\x7d' := by
  simpa only [isStop, endsSignature, Bool.or_eq_true, beq_iff_eq] using h

theorem isBlank_of_isStop {c : Char} (h : isStop c = true) : isBlank c = false := by
  rcases isStop_cases h with ((rfl | rfl) | rfl) | rfl <;> rfl

theorem isStop_of_isNameChar {c : Char} (h : isNameChar c = true) : isStop c = false := by
  rw [Bool.eq_false_iff]
  intro hstop
  rcases isStop_cases hstop with ((rfl | rfl) | rfl) | rfl <;> cases h

namespace Alike

variable {R : List Cell → List Cell → Prop} (hR : Alike R)
include hR

theorem keyword? {w : List Char} (hw : IsKeyword w) {s s' : List Cell} (h : R s s') :
    Option.Rel R (ConnectorCatalog.keyword? w s) (ConnectorCatalog.keyword? w s') := by
  induction w generalizing s s' with
  | nil =>
    rw [ConnectorCatalog.keyword?, ConnectorCatalog.keyword?]
    exact .some h
  | cons c w ih =>
    obtain ⟨hc, hstop⟩ := hw c (List.mem_cons_self ..)
    cases s with
    | nil =>
      obtain rfl := hR.nil h
      exact .none
    | cons x s =>
      cases hx : x.isBlankCode with
      | true =>
        obtain ⟨b, bs, r', rfl, hb, -⟩ := hR.blank h hx
        rw [List.cons_append, ConnectorCatalog.keyword?, ConnectorCatalog.keyword?,
          if_neg (shown_ne_of_isBlankCode hx hc),
          if_neg (shown_ne_of_isBlankCode (hb b (List.mem_cons_self ..)) hc)]
        exact .none
      | false =>
        obtain ⟨x', r', rfl, hshown, hr⟩ := hR.cons h hx
        rw [ConnectorCatalog.keyword?, ConnectorCatalog.keyword?, hshown]
        by_cases hxc : x.shown = c
        · rw [if_pos hxc, if_pos hxc]
          exact ih (fun d hd => hw d (List.mem_cons_of_mem _ hd)) (hr (hxc ▸ hstop))
        · rw [if_neg hxc, if_neg hxc]
          exact .none

theorem afterBlanks {s s' : List Cell} (h : R s s') :
    R (ConnectorCatalog.afterBlanks s) (ConnectorCatalog.afterBlanks s') := by
  induction s generalizing s' with
  | nil =>
    obtain rfl := hR.nil h
    exact h
  | cons x s ih =>
    cases hx : x.isBlankCode with
    | true =>
      obtain ⟨b, bs, r', rfl, hb, hr⟩ := hR.blank h hx
      rw [afterBlanks_cons_of_blank hx, afterBlanks_append hb]
      exact ih hr
    | false =>
      obtain ⟨x', r', rfl, hshown, -⟩ := hR.cons h hx
      have hx' : x'.isBlankCode = false := by rw [Cell.isBlankCode, hshown, ← Cell.isBlankCode, hx]
      rw [afterBlanks_cons_of_not_blank hx, afterBlanks_cons_of_not_blank hx']
      exact h

theorem keywordBlanks? {w : List Char} (hw : IsKeyword w) {s s' : List Cell} (h : R s s') :
    Option.Rel R (ConnectorCatalog.keywordBlanks? w s) (ConnectorCatalog.keywordBlanks? w s') := by
  unfold ConnectorCatalog.keywordBlanks?
  have hk := hR.keyword? hw h
  generalize ConnectorCatalog.keyword? w s = o at hk ⊢
  generalize ConnectorCatalog.keyword? w s' = o' at hk ⊢
  cases hk with
  | none => exact .none
  | @some r r' hr =>
    cases r with
    | nil =>
      obtain rfl := hR.nil hr
      exact .none
    | cons x r =>
      cases hx : x.isBlankCode with
      | true =>
        obtain ⟨b, bs, t', rfl, hb, ht⟩ := hR.blank hr hx
        simp only [List.cons_append, hx, hb b (List.mem_cons_self ..), if_true]
        rw [afterBlanks_append fun y hy => hb y (List.mem_cons_of_mem _ hy)]
        exact .some (hR.afterBlanks ht)
      | false =>
        obtain ⟨x', t', rfl, hshown, -⟩ := hR.cons hr hx
        have hx' : x'.isBlankCode = false := by
          rw [Cell.isBlankCode, hshown, ← Cell.isBlankCode, hx]
        simp only [hx, hx', Bool.false_eq_true, if_false]
        exact .none

theorem oneOf? {ws : List String} (hws : ∀ w ∈ ws, IsKeyword w.toList) {s s' : List Cell}
    (h : R s s') : SameReading R (ConnectorCatalog.oneOf? ws s) (ConnectorCatalog.oneOf? ws s') := by
  induction ws with
  | nil => exact .none
  | cons w ws ih =>
    have hk := hR.keywordBlanks? (hws w (List.mem_cons_self ..)) h
    have ih := ih fun v hv => hws v (List.mem_cons_of_mem _ hv)
    unfold ConnectorCatalog.oneOf? at ih ⊢
    rw [List.findSome?_cons, List.findSome?_cons]
    generalize ConnectorCatalog.keywordBlanks? w.toList s = o at hk ⊢
    generalize ConnectorCatalog.keywordBlanks? w.toList s' = o' at hk ⊢
    cases hk with
    | none => exact ih
    | some hr => exact .some ⟨rfl, hr⟩

theorem qualifiers (ws : List String) (hws : ∀ w ∈ ws, IsKeyword w.toList) {s s' : List Cell}
    (h : R s s') :
    (ConnectorCatalog.qualifiers ws s).1 = (ConnectorCatalog.qualifiers ws s').1 ∧
      R (ConnectorCatalog.qualifiers ws s).2 (ConnectorCatalog.qualifiers ws s').2 := by
  induction hn : s.length using Nat.strongRecOn generalizing s s' with
  | _ n ih =>
    have ho := hR.oneOf? hws h
    cases hs : ConnectorCatalog.oneOf? ws s with
    | none =>
      rw [hs] at ho
      cases hs' : ConnectorCatalog.oneOf? ws s' with
      | some p => rw [hs'] at ho; cases ho
      | none =>
        rw [qualifiers_of_none hs, qualifiers_of_none hs']
        exact ⟨rfl, h⟩
    | some p =>
      rw [hs] at ho
      cases hs' : ConnectorCatalog.oneOf? ws s' with
      | none => rw [hs'] at ho; cases ho
      | some p' =>
        obtain ⟨w, r⟩ := p
        obtain ⟨w', r'⟩ := p'
        rw [hs'] at ho
        cases ho with
        | some hp =>
          obtain ⟨rfl, hr⟩ := hp
          obtain ⟨h1, h2⟩ := ih r.length (hn ▸ length_of_oneOf? hs) hr rfl
          rw [qualifiers_of_some hs, qualifiers_of_some hs']
          exact ⟨by rw [h1], h2⟩

/-- Alike texts begin with the same characters of a name, and what follows is alike. -/
theorem name {s s' : List Cell} (h : R s s') :
    (s.takeWhile fun y => isNameChar y.shown).map Cell.shown
        = (s'.takeWhile fun y => isNameChar y.shown).map Cell.shown ∧
      R (s.dropWhile fun y => isNameChar y.shown) (s'.dropWhile fun y => isNameChar y.shown) := by
  induction s generalizing s' with
  | nil =>
    obtain rfl := hR.nil h
    exact ⟨rfl, h⟩
  | cons x s ih =>
    cases hx : x.isBlankCode with
    | true =>
      obtain ⟨b, bs, r', rfl, hb, -⟩ := hR.blank h hx
      have hn : ∀ y : Cell, y.isBlankCode = true → isNameChar y.shown = false :=
        fun y hy => isNameChar_of_isBlank hy
      rw [List.cons_append, List.takeWhile_cons, List.takeWhile_cons, List.dropWhile_cons,
        List.dropWhile_cons, hn x hx, hn b (hb b (List.mem_cons_self ..))]
      exact ⟨rfl, h⟩
    | false =>
      obtain ⟨x', r', rfl, hshown, hr⟩ := hR.cons h hx
      rw [List.takeWhile_cons, List.takeWhile_cons, List.dropWhile_cons, List.dropWhile_cons,
        hshown]
      cases hc : isNameChar x.shown with
      | false => exact ⟨rfl, h⟩
      | true =>
        obtain ⟨h1, h2⟩ := ih (hr (isStop_of_isNameChar hc))
        simp only [if_true, List.map_cons, hshown]
        exact ⟨by rw [h1], h2⟩

theorem classBrace {s s' : List Cell} (h : R s s') (header : ClassHeader) :
    SameReading R (header.brace? s) (header.brace? s') := by
  unfold ClassHeader.brace?
  have hr := hR.afterBlanks h
  generalize ConnectorCatalog.afterBlanks s = r at hr ⊢
  generalize ConnectorCatalog.afterBlanks s' = r' at hr ⊢
  cases r with
  | nil =>
    obtain rfl := hR.nil hr
    exact .none
  | cons y rest =>
    cases hy : y.isBlankCode with
    | true =>
      obtain ⟨b, bs, t', rfl, hb, -⟩ := hR.blank hr hy
      simp only [List.cons_append]
      rw [if_neg (shown_ne_of_isBlankCode hy rfl),
        if_neg (shown_ne_of_isBlankCode (hb b (List.mem_cons_self ..)) rfl)]
      exact .none
    | false =>
      obtain ⟨y', t', rfl, hshown, -⟩ := hR.cons hr hy
      simp only [hshown]
      by_cases hbrace : y.shown = '\x7b'
      · rw [if_pos hbrace, if_pos hbrace]
        exact .some ⟨rfl, hr⟩
      · rw [if_neg hbrace, if_neg hbrace]
        exact .none

theorem className {s s' : List Cell} (h : R s s') (qs : List String) :
    SameReading R (ClassHeader.name? qs s) (ClassHeader.name? qs s') := by
  cases s with
  | nil =>
    obtain rfl := hR.nil h
    exact .none
  | cons x s =>
    cases hx : x.isBlankCode with
    | true =>
      have hstart : ∀ y : Cell, y.isBlankCode = true → isNameStart y.shown = false := by
        intro y hy
        rw [Bool.eq_false_iff]
        intro hn
        have := isNameChar_of_isBlank hy
        rw [isNameChar_of_isNameStart hn] at this
        cases this
      obtain ⟨b, bs, r', rfl, hb, -⟩ := hR.blank h hx
      rw [List.cons_append, ClassHeader.name?, ClassHeader.name?, hstart x hx,
        hstart b (hb b (List.mem_cons_self ..))]
      exact .none
    | false =>
      obtain ⟨x', r', rfl, hshown, hr⟩ := hR.cons h hx
      rw [ClassHeader.name?, ClassHeader.name?, hshown]
      cases hn : isNameStart x.shown with
      | false => exact .none
      | true =>
        obtain ⟨h1, h2⟩ := hR.name (hr (isStop_of_isNameChar (isNameChar_of_isNameStart hn)))
        simp only [List.map_cons, hshown, if_true, h1]
        exact hR.classBrace h2 _

/-- A class header is read alike from alike texts. -/
theorem classHeader {s s' : List Cell} (h : R s s') :
    SameReading R (ClassHeader.read? s) (ClassHeader.read? s') := by
  obtain ⟨hq, hr⟩ := hR.qualifiers ClassHeader.words (by decide) h
  unfold ClassHeader.read?
  generalize ConnectorCatalog.qualifiers ClassHeader.words s = p at hq hr ⊢
  generalize ConnectorCatalog.qualifiers ClassHeader.words s' = p' at hq hr ⊢
  obtain ⟨qs, r⟩ := p
  obtain ⟨qs', r'⟩ := p'
  simp only at hq hr
  subst hq
  cases qs with
  | nil => exact .none
  | cons q qs =>
    have hk := hR.keywordBlanks? (w := "class".toList) (by decide) hr
    simp only
    generalize ConnectorCatalog.keywordBlanks? "class".toList r = o at hk ⊢
    generalize ConnectorCatalog.keywordBlanks? "class".toList r' = o' at hk ⊢
    cases hk with
    | none => exact .none
    | some ht => exact hR.className ht _

end Alike

end ConnectorCatalog
