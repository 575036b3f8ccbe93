import ConnectorCatalog.Proofs.Flat

/-!
# Well nested brackets

In a text whose brackets are well nested, openings and closings make up for each other
(`nesting_of_wellNested`) and each opening bracket has its partner, although partners are looked for
by counting one kind of bracket alone (`closeIndex?_isSome`).
-/

namespace ConnectorCatalog

/-- A character that closes one of the three kinds of brackets that nest code. -/
def isClosing (c : Char) : Bool := c == '\x7d' || c == ')' || c == ']'

section

variable {α : Type _} (view : α → Char)

/-- The brackets are well nested, where `pending` holds the closings that are still to come, the
next one first. -/
def wellNestedFrom : List Char → List α → Bool
  | pending, [] => pending.isEmpty
  | pending, x :: s =>
    match closing? (view x) with
    | some closing => wellNestedFrom (closing :: pending) s
    | none =>
      if isClosing (view x) then
        pending.head? == some (view x) && wellNestedFrom pending.tail s
      else wellNestedFrom pending s

/-- The brackets `()`, `[]` and `{}` of a text are well nested. -/
def wellNested (s : List α) : Bool := wellNestedFrom view [] s

end

variable {α : Type _} {view : α → Char}

/-- The three kinds of brackets. -/
theorem closing?_cases {o c : Char} (h : closing? o = some c) :
    (o = '\x7b' ∧ c = '\x7d') ∨ (o = '(' ∧ c = ')') ∨ (o = '[' ∧ c = ']') := by
  unfold closing? at h
  split_ifs at h with h1 h2 h3 <;> cases h
  · exact .inl ⟨h1, rfl⟩
  · exact .inr (.inl ⟨h2, rfl⟩)
  · exact .inr (.inr ⟨h3, rfl⟩)

theorem nestingStep_of_closing? {o c : Char} (h : closing? o = some c) : nestingStep o = 1 := by
  obtain ⟨rfl, -⟩ | ⟨rfl, -⟩ | ⟨rfl, -⟩ := closing?_cases h <;> rfl

theorem nestingStep_of_isClosing {c : Char} (h : isClosing c = true) : nestingStep c = -1 := by
  simp only [isClosing, Bool.or_eq_true, beq_iff_eq] at h
  obtain (rfl | rfl) | rfl := h <;> rfl

theorem nestingStep_of_neither {c : Char} (ho : closing? c = none) (hc : isClosing c = false) :
    nestingStep c = 0 := by
  rw [closing?] at ho
  simp only [isClosing, Bool.or_eq_false_iff, beq_eq_false_iff_ne] at hc
  split_ifs at ho with h1 h2 h3
  simp [nestingStep, h1, h2, h3, hc]

/-- What the first character does to the closings that are still to come. -/
theorem wellNestedFrom_cons {pending : List Char} {x : α} {s : List α}
    (h : wellNestedFrom view pending (x :: s) = true) :
    (∃ c, closing? (view x) = some c ∧ wellNestedFrom view (c :: pending) s = true) ∨
    (∃ rest, isClosing (view x) = true ∧ pending = view x :: rest ∧
      wellNestedFrom view rest s = true) ∨
    (closing? (view x) = none ∧ isClosing (view x) = false ∧
      wellNestedFrom view pending s = true) := by
  rw [wellNestedFrom] at h
  cases ho : closing? (view x) with
  | some c =>
    rw [ho] at h
    exact .inl ⟨c, rfl, h⟩
  | none =>
    rw [ho] at h
    cases hc : isClosing (view x) with
    | false =>
      rw [hc] at h
      exact .inr (.inr ⟨rfl, rfl, h⟩)
    | true =>
      rw [hc] at h
      cases pending with
      | nil => cases h
      | cons c rest =>
        simp only [if_true, Bool.and_eq_true, beq_iff_eq, List.head?_cons, Option.some_inj] at h
        exact .inr (.inl ⟨rest, rfl, by rw [h.1], h.2⟩)

/-- A bracket of one kind does not count for another kind, nor does what closes it. -/
theorem closing?_apart {o c o' c' : Char} (h : closing? o = some c) (h' : closing? o' = some c')
    (hne : o' ≠ o) : o' ≠ c ∧ c' ≠ c := by
  obtain ⟨rfl, rfl⟩ | ⟨rfl, rfl⟩ | ⟨rfl, rfl⟩ := closing?_cases h <;>
    obtain ⟨rfl, rfl⟩ | ⟨rfl, rfl⟩ | ⟨rfl, rfl⟩ := closing?_cases h' <;>
    first | exact absurd rfl hne | decide

theorem isClosing_of_closing? {o c : Char} (h : closing? o = some c) : isClosing c = true := by
  obtain ⟨-, rfl⟩ | ⟨-, rfl⟩ | ⟨-, rfl⟩ := closing?_cases h <;> rfl

theorem closing?_of_isClosing {c : Char} (h : isClosing c = true) : closing? c = none := by
  simp only [isClosing, Bool.or_eq_true, beq_iff_eq] at h
  obtain (rfl | rfl) | rfl := h <;> rfl

theorem ne_of_isClosing {o c d : Char} (h : closing? o = some c) (hd : isClosing d = true) :
    d ≠ o := by
  rintro rfl
  have := nestingStep_of_isClosing hd
  rw [nestingStep_of_closing? h] at this
  cases this

/-- The nesting makes up for the closings that are still to come. -/
theorem nesting_of_wellNestedFrom {pending : List Char} {s : List α}
    (h : wellNestedFrom view pending s = true) : nesting view s = -pending.length := by
  induction s generalizing pending with
  | nil =>
    rw [wellNestedFrom, List.isEmpty_iff] at h
    subst h
    rfl
  | cons x s ih =>
    rw [nesting]
    obtain ⟨c, ho, hs⟩ | ⟨rest, hc, rfl, hs⟩ | ⟨ho, hc, hs⟩ := wellNestedFrom_cons h
    · rw [ih hs, nestingStep_of_closing? ho, List.length_cons]
      omega
    · rw [ih hs, nestingStep_of_isClosing hc, List.length_cons]
      omega
    · rw [ih hs, nestingStep_of_neither ho hc]
      omega

theorem nesting_of_wellNested {s : List α} (h : wellNested view s = true) : nesting view s = 0 :=
  nesting_of_wellNestedFrom h

/-- As long as the closings to come make up for the openings counted, the partner is found. -/
theorem closeFrom_isSome {o c : Char} (hoc : closing? o = some c) {pending : List Char} {s : List α}
    (h : wellNestedFrom view pending s = true) {depth : Nat} (hpos : 0 < depth)
    (hdepth : depth ≤ pending.count c) : (closeFrom view o c depth s).isSome := by
  -- a bracket of another kind moves neither `depth` nor the count, its own kind moves both
  induction s generalizing pending depth with
  | nil =>
    rw [wellNestedFrom, List.isEmpty_iff] at h
    subst h
    rw [List.count_nil] at hdepth
    omega
  | cons x s ih =>
    have hnext : ∀ {pending d}, wellNestedFrom view pending s = true → 0 < d →
        d ≤ pending.count c → ((closeFrom view o c d s).map (· + 1)).isSome := by
      intro pending d hs hd hle
      rw [Option.isSome_map]
      exact ih hs hd hle
    rw [closeFrom]
    obtain ⟨c', ho', hs⟩ | ⟨rest, hc', rfl, hs⟩ | ⟨ho', hc', hs⟩ := wellNestedFrom_cons h
    · by_cases hx : view x = o
      · rw [if_pos hx]
        rw [hx, hoc] at ho'
        cases ho'
        refine hnext hs (Nat.succ_pos _) ?_
        rw [List.count_cons_self]
        omega
      · have hne := closing?_apart hoc ho' hx
        rw [if_neg hx, if_neg hne.1]
        refine hnext hs hpos ?_
        rwa [List.count_cons_of_ne hne.2]
    · rw [if_neg (ne_of_isClosing hoc hc')]
      by_cases hxc : view x = c
      · rw [if_pos hxc]
        split_ifs with hone
        · rfl
        · rw [hxc, List.count_cons_self] at hdepth
          exact hnext hs (by omega) (by omega)
      · rw [if_neg hxc]
        rw [List.count_cons_of_ne hxc] at hdepth
        exact hnext hs hpos hdepth
    · have hx : view x ≠ o := by
        rintro rfl
        rw [hoc] at ho'
        cases ho'
      have hxc : view x ≠ c := by
        rintro rfl
        rw [isClosing_of_closing? hoc] at hc'
        cases hc'
      rw [if_neg hx, if_neg hxc]
      exact hnext hs hpos hdepth

/-- What follows a beginning of a well nested text closes what that beginning has left open. -/
theorem exists_pending {pending : List Char} {a b : List α}
    (h : wellNestedFrom view pending (a ++ b) = true) :
    ∃ rest, wellNestedFrom view rest b = true := by
  induction a generalizing pending with
  | nil => exact ⟨pending, h⟩
  | cons x a ih =>
    obtain ⟨c, -, hs⟩ | ⟨rest, -, -, hs⟩ | ⟨-, -, hs⟩ := wellNestedFrom_cons h
    · exact ih hs
    · exact ih hs
    · exact ih hs

/-- An opening bracket of a well nested text has its partner. -/
theorem closeIndex?_isSome {a b : List α} {x : α} (h : wellNested view (a ++ x :: b) = true)
    (hx : (closing? (view x)).isSome) : (closeIndex? view (x :: b)).isSome := by
  obtain ⟨pending, hp⟩ := exists_pending h
  obtain ⟨c, hc⟩ := Option.isSome_iff_exists.1 hx
  rw [wellNestedFrom, hc] at hp
  rw [closeIndex?, hc]
  simp only [Option.isSome_map]
  refine closeFrom_isSome hc hp Nat.one_pos ?_
  rw [List.count_cons_self]
  omega

/-- What an opening bracket of a well nested text encloses is the same with text behind. -/
theorem enclosed?_append_of_wellNested {a b : List α} {x : α}
    (h : wellNested view (a ++ x :: b) = true) (hx : (closing? (view x)).isSome) (t : List α) :
    enclosed? view (x :: b ++ t) = (enclosed? view (x :: b)).map fun p => (p.1, p.2 ++ t) := by
  have hi := closeIndex?_isSome h hx
  cases he : enclosed? view (x :: b) with
  | none =>
    rw [enclosed?, Option.map_eq_none_iff] at he
    rw [he] at hi
    cases hi
  | some p => exact enclosed?_append he t

/-- A beginning of a well nested text that leaves the nesting as it was is well nested. -/
theorem wellNested_of_nesting {a b : List α} (h : wellNested view (a ++ b) = true)
    (ha : nesting view a = 0) : wellNested view a = true := by
  have hends : ∀ {pending : List Char} {a : List α},
      wellNestedFrom view pending (a ++ b) = true →
      ∃ rest, wellNestedFrom view rest b = true ∧
        ∀ s, wellNestedFrom view rest s = true →
          wellNestedFrom view pending (a ++ s) = true := by
    intro pending a h
    induction a generalizing pending with
    | nil => exact ⟨pending, h, fun s hs => hs⟩
    | cons x a ih =>
      obtain ⟨c, hx, hs⟩ | ⟨rest, hx, rfl, hs⟩ | ⟨ho, hc, hs⟩ := wellNestedFrom_cons h
      · obtain ⟨rest, hb, hrest⟩ := ih hs
        exact ⟨rest, hb, fun s hs => by simp [wellNestedFrom, hx, hrest s hs]⟩
      · obtain ⟨rest', hb, hrest⟩ := ih hs
        exact ⟨rest', hb, fun s hs => by
          simp [wellNestedFrom, closing?_of_isClosing hx, hx, hrest s hs]⟩
      · obtain ⟨rest, hb, hrest⟩ := ih hs
        exact ⟨rest, hb, fun s hs => by simp [wellNestedFrom, ho, hc, hrest s hs]⟩
  obtain ⟨rest, hb, hrest⟩ := hends h
  have hsum := nesting_of_wellNested h
  rw [nesting_append, ha, nesting_of_wellNestedFrom hb] at hsum
  obtain rfl : rest = [] := List.eq_nil_of_length_eq_zero (by omega)
  have := hrest [] rfl
  rwa [List.append_nil] at this

/-- A text that closes pending brackets closes the last of them somewhere, and all others before. -/
theorem exists_closed {c : Char} {pending : List Char} {s : List α} : ∀ inner : List Char,
    wellNestedFrom view (inner ++ c :: pending) s = true →
    ∃ a x b, s = a ++ x :: b ∧ view x = c ∧ wellNestedFrom view inner a = true ∧
      wellNestedFrom view pending b = true := by
  induction s with
  | nil =>
    intro inner h
    simp [wellNestedFrom] at h
  | cons x s ih =>
    intro inner h
    obtain ⟨d, hx, hs⟩ | ⟨rest, hx, hrest, hs⟩ | ⟨ho, hc, hs⟩ := wellNestedFrom_cons h
    · obtain ⟨a, y, b, rfl, hy, ha, hb⟩ := ih (d :: inner) hs
      exact ⟨x :: a, y, b, rfl, hy, by simp [wellNestedFrom, hx, ha], hb⟩
    · cases inner with
      | nil =>
        obtain ⟨rfl, rfl⟩ := List.cons.inj hrest
        exact ⟨[], x, s, rfl, rfl, rfl, hs⟩
      | cons d inner =>
        obtain ⟨rfl, rfl⟩ := List.cons.inj hrest
        obtain ⟨a, y, b, rfl, hy, ha, hb⟩ := ih inner hs
        exact ⟨x :: a, y, b, rfl, hy, by simp [wellNestedFrom, closing?_of_isClosing hx, hx, ha], hb⟩
    · obtain ⟨a, y, b, rfl, hy, ha, hb⟩ := ih inner hs
      exact ⟨x :: a, y, b, rfl, hy, by simp [wellNestedFrom, ho, hc, ha], hb⟩

/-- Brackets are as well nested in the masked text as in the cells. -/
theorem Spread.wellNestedFrom_flatMap {β : Type _} {view' : β → Char} {f : α → List β}
    (hf : Spread view view' f) (pending : List Char) (s : List α) :
    wellNestedFrom view' pending (s.flatMap f) = wellNestedFrom view pending s := by
  induction s generalizing pending with
  | nil => rfl
  | cons x s ih =>
    rw [List.flatMap_cons, wellNestedFrom]
    obtain ⟨y, hy, hv⟩ | ⟨hx, hy⟩ := hf.alike x
    · rw [hy, List.singleton_append, wellNestedFrom, hv]
      simp only [ih]
    · have hclose : ∀ {c}, IsIdle c → isClosing c = false := by
        intro c hc
        simp [isClosing, hc.ne (d := '\x7d') rfl (by decide), hc.ne (d := ')') rfl (by decide),
          hc.ne (d := ']') rfl (by decide)]
      have hskip : ∀ {r : List β}, (∀ y ∈ r, IsIdle (view' y)) → ∀ t,
          wellNestedFrom view' pending (r ++ t) = wellNestedFrom view' pending t := by
        intro r hr t
        induction r with
        | nil => rfl
        | cons y r ihr =>
          have hidle := hr y (List.mem_cons_self ..)
          rw [List.cons_append, wellNestedFrom, hidle.closing?, hclose hidle]
          exact ihr fun z hz => hr z (List.mem_cons_of_mem _ hz)
      rw [hskip hy, ih, hx.closing?, hclose hx]
      rfl

end ConnectorCatalog
