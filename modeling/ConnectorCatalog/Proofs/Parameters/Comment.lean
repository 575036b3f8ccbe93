import ConnectorCatalog.Proofs.ClientMethod
import ConnectorCatalog.Proofs.Parameters.Basic
import ConnectorCatalog.Proofs.Segment

/-!
# Comments in signatures

Names and types are cut out of the source with the comments that stand in them. So a comment makes
no difference where nothing is cut out: in a default, between commas or parentheses with nothing but
blanks there, and behind the parameter list in front of what follows (`FreePlace`). There it shows as
blanks, which leave the list and what follows it as they are (`ReadAround`). The methods in front of
the place are the same if their types end there (`TypeEnds`), the methods behind it if they begin
behind a stop (`NoMethodAhead`), so the class has the same functions (`functionsOf_blanks`).
-/

namespace ConnectorCatalog

/-- The places of a signature where nothing is cut out of the source, given by the cells between the
opening parenthesis and the place and by the cells behind it. -/
inductive FreePlace (paren : Cell) : List Cell → List Cell → Prop
  /-- Behind the equals sign of a parameter. -/
  | default {pre e v after : List Cell} {q close : Cell}
      (list : enclosed? Cell.shown (paren :: (pre ++ q :: (e ++ v) ++ close :: after))
        = some (pre ++ q :: (e ++ v), after))
      (equals : q.shown = '=') (top : typeNesting Cell.shown pre = 0)
      (uncut : topPieces Cell.shown ',' e = [e]) :
      FreePlace paren (pre ++ q :: e) (v ++ close :: after)
  /-- Among blanks from the opening parenthesis or a comma to a comma or the closing parenthesis. -/
  | blank {pre b b' v after : List Cell} {close : Cell}
      (list : enclosed? Cell.shown (paren :: (pre ++ (b ++ (b' ++ v)) ++ close :: after))
        = some (pre ++ (b ++ (b' ++ v)), after))
      (blanks : ∀ x ∈ b ++ b', x.isBlankCode = true)
      (before : pre = [] ∨ ∃ p x, pre = p ++ [x] ∧ x.shown = ',' ∧ typeNesting Cell.shown p = 0)
      (behind : ∀ x ∈ v.head?, x.shown = ',') :
      FreePlace paren (pre ++ b) (b' ++ v ++ close :: after)
  /-- Among the blanks behind the closing parenthesis. -/
  | behind {parameters b after : List Cell} {close : Cell}
      (list : enclosed? Cell.shown (paren :: (parameters ++ close :: (b ++ after)))
        = some (parameters, b ++ after))
      (blanks : ∀ x ∈ b, x.isBlankCode = true) : FreePlace paren (parameters ++ close :: b) after

section Blanks

variable {b pre v : List Cell}

/-- Blanks between two commas, or where the list begins or ends, hold no parameter. -/
theorem parametersOf_between (docs : Documentation) (hb : ∀ x ∈ b, x.isBlankCode = true)
    (hpre : pre = [] ∨ ∃ p x, pre = p ++ [x] ∧ x.shown = ',' ∧ typeNesting Cell.shown p = 0)
    (hv : ∀ x ∈ v.head?, x.shown = ',') :
    parametersOf docs (pre ++ (b ++ v)) = parametersOf docs pre ++ parametersOf docs v := by
  have hbehind : parametersOf docs (b ++ v) = parametersOf docs v := by
    cases v with
    | nil => rw [List.append_nil, parametersOf_of_blank docs hb, parametersOf_nil]
    | cons x v =>
      have hx := hv x rfl
      have hwhole := whole_of_blank (show isBlank ',' = false by decide) hb
      have hnil := parametersOf_append_cut docs (s := []) rfl hx v
      rw [parametersOf_append_cut docs hwhole.nesting hx, parametersOf_of_blank docs hb]
      rw [parametersOf_nil] at hnil
      exact hnil.symm
  rcases hpre with rfl | ⟨p, x, rfl, hx, hp⟩
  · exact hbehind
  · rw [List.append_assoc, List.singleton_append, parametersOf_append_cut docs hp hx, hbehind,
      parametersOf_append_cut docs hp hx, parametersOf_nil, List.append_nil]

theorem returnTypeOf_append (hb : ∀ x ∈ b, x.isBlankCode = true) (s : List Cell) :
    returnTypeOf (b ++ s) = returnTypeOf s := by
  rw [returnTypeOf, afterBlanks_append hb, returnTypeOf]

/-- The parameter list around a place and what follows it, read with `xs` at the place (`list'`) and
without (`list`). Behind the closing parenthesis stand the blanks `gap'` or `gap`, and then `rest`;
`inside` is what stands from the place to there. -/
structure ReadAround (paren : Cell) (a w xs list list' gap gap' inside rest : List Cell)
    (close : Cell) : Prop where
  behind : w = inside ++ rest
  list_eq : list ++ close :: gap = a ++ inside
  list_eq' : list' ++ close :: gap' = a ++ (xs ++ inside)
  enclosed : enclosed? Cell.shown (paren :: (a ++ w)) = some (list, gap ++ rest)
  enclosed' : enclosed? Cell.shown (paren :: (a ++ (xs ++ w))) = some (list', gap' ++ rest)
  blank : ∀ x ∈ gap, x.isBlankCode = true
  blank' : ∀ x ∈ gap', x.isBlankCode = true
  parameters : ∀ docs, parametersOf docs list' = parametersOf docs list

section ReadAround

variable {paren close : Cell} {a w xs list list' gap gap' inside rest : List Cell}
  (h : ReadAround paren a w xs list list' gap gap' inside rest close)

include h

theorem ReadAround.list_append (t : List Cell) :
    list ++ close :: (gap ++ t) = a ++ (inside ++ t) := by
  simpa using congrArg (· ++ t) h.list_eq

theorem ReadAround.list_append' (t : List Cell) :
    list' ++ close :: (gap' ++ t) = a ++ (xs ++ (inside ++ t)) := by
  simpa using congrArg (· ++ t) h.list_eq'

end ReadAround

/-- Blanks at a free place leave the parameters and what follows the list as they are. -/
theorem FreePlace.exists_readAround {paren : Cell} {a w : List Cell} (h : FreePlace paren a w)
    {xs : List Cell} (hxs : ∀ x ∈ xs, x.isBlankCode = true) :
    ∃ list list' gap gap' inside rest close,
      ReadAround paren a w xs list list' gap gap' inside rest close := by
  have hneutral : Neutral Cell.shown xs := neutral_of_blank hxs
  have hnil : ∀ x ∈ ([] : List Cell), x.isBlankCode = true := by simp
  cases h with
  | @default pre e v after q close hlist hq hpre he =>
    have hlist' := enclosed?_replace (a := pre ++ q :: e) (s := []) (r := v) (by simpa using hlist)
      neutral_nil hneutral
    obtain ⟨hcut, hnesting⟩ := topPiecesFrom_of_blank (show isBlank ',' = false by decide) hxs
      (typeNesting Cell.shown e)
    have huncut : topPieces Cell.shown ',' (e ++ xs) = [e ++ xs] := by
      rw [topPieces_append_of_uncut he, hcut]
      rfl
    refine ⟨pre ++ q :: (e ++ v), pre ++ q :: (e ++ xs ++ v), [], [], v ++ [close], after, close,
      by simp, by simp, by simp, by simpa using hlist, by simpa using hlist', hnil, hnil,
      fun docs => (parametersOf_default docs hq hpre he huncut (v := v) (.inr ?_)).symm⟩
    rw [typeNesting_append, hnesting, Int.add_zero]
  | @blank pre b b' v after close hlist hb hpre hv =>
    have hlist' := enclosed?_replace (a := pre ++ b) (s := []) (r := b' ++ v) (by simpa using hlist)
      neutral_nil hneutral
    have hb' : ∀ x ∈ b ++ (xs ++ b'), x.isBlankCode = true := by
      simp only [List.forall_mem_append] at hb ⊢
      exact ⟨hb.1, hxs, hb.2⟩
    refine ⟨pre ++ (b ++ (b' ++ v)), pre ++ (b ++ (xs ++ b') ++ v), [], [], b' ++ v ++ [close],
      after, close, by simp, by simp, by simp, by simpa using hlist, by simpa using hlist', hnil,
      hnil, fun docs => ?_⟩
    rw [parametersOf_between docs hb' hpre hv, ← parametersOf_between docs hb hpre hv]
    simp
  | @behind parameters b after close hlist hb =>
    have hlist' := enclosed?_behind hlist (b ++ (xs ++ w))
    refine ⟨parameters, parameters, b, b ++ xs, [], w, close, rfl, by simp, by simp,
      by simpa using hlist, by simpa using hlist', hb, List.forall_mem_append.2 ⟨hb, hxs⟩,
      fun docs => rfl⟩

end Blanks

section Types

theorem keyword?_append {w : List Char} {s : List Cell} (h : w.length ≤ s.length) (t : List Cell) :
    keyword? w (s ++ t) = (keyword? w s).map (· ++ t) := by
  induction w generalizing s with
  | nil => simp [keyword?]
  | cons c w ih =>
    cases s with
    | nil => simp at h
    | cons x s =>
      rw [List.cons_append, keyword?, keyword?, ih (by simpa using h)]
      split <;> rfl

theorem afterBlanks_append_of_ne_nil {s : List Cell} (h : afterBlanks s ≠ []) (t : List Cell) :
    afterBlanks (s ++ t) = afterBlanks s ++ t := by
  unfold afterBlanks at h ⊢
  rw [List.dropWhile_append, if_neg (by rwa [List.isEmpty_iff])]

/-- A type that ends before a text does is the same with text behind. -/
theorem typeCells_append {type : List Cell} (t : List Cell) : ∀ {s seen : List Cell} {depth : Int}
    {skip : Nat}, typeCells seen depth skip s = some type →
    type.length < seen.length + s.length → typeCells seen depth skip (s ++ t) = some type
  | [], seen, depth, skip, h, hlt => by
    rw [typeCells, Option.some_inj] at h
    rw [← h, List.length_reverse, List.length_nil] at hlt
    omega
  | x :: s, seen, depth, skip, h, hlt => by
    have ih := fun {depth skip} (h : typeCells (x :: seen) depth skip s = some type) =>
      typeCells_append t h (by
        simp only [List.length_cons] at hlt ⊢
        omega)
    cases skip with
    | succ skip =>
      rw [List.cons_append, typeCells]
      rw [typeCells] at h
      exact ih h
    | zero =>
      rw [List.cons_append, typeCells]
      rw [typeCells] at h
      split_ifs at h ⊢
      · exact ih h
      · exact ih h
      · cases hclose : closeIndex? Cell.shown (x :: s) with
        | none =>
          rw [hclose] at h
          cases h
        | some close =>
          rw [hclose] at h
          rw [← List.cons_append, closeIndex?_append hclose]
          exact ih h
      · exact h
      · exact h
      · exact ih h

/-- A return type that is written at the beginning of `s` ends in `s`. -/
def TypeEnds (s : List Cell) : Prop :=
  ∀ rest ∈ keyword? "returns".toList (afterBlanks s),
    ∃ type ∈ typeCells [] 0 0 rest, type.length < rest.length

instance (s : List Cell) : Decidable (TypeEnds s) :=
  inferInstanceAs (Decidable (∀ rest ∈ keyword? "returns".toList (afterBlanks s),
    ∃ type ∈ typeCells [] 0 0 rest, type.length < rest.length))

/-- A return type that ends in a text does not depend on what follows. -/
theorem TypeEnds.returnTypeOf {s : List Cell} (h : TypeEnds s)
    (hlength : "returns".toList.length ≤ (afterBlanks s).length) (t : List Cell) :
    returnTypeOf (s ++ t) = returnTypeOf s := by
  have hne : afterBlanks s ≠ [] := by
    intro hnil
    rw [hnil] at hlength
    exact absurd hlength (by decide)
  rw [ConnectorCatalog.returnTypeOf, ConnectorCatalog.returnTypeOf, afterBlanks_append_of_ne_nil hne,
    keyword?_append hlength]
  cases hrest : keyword? "returns".toList (afterBlanks s) with
  | none => rfl
  | some rest =>
    obtain ⟨type, htype, hlt⟩ := h rest hrest
    rw [Option.map_some]
    simp only [typeCells_append t htype (by simpa using hlt), Option.mem_def.1 htype]

end Types

section Methods

/-- No method that can be called is read in `s` up to the first of `(`, `;`, `{` and `}`. -/
def NoMethodAhead : List Cell → Prop
  | [] => True
  | x :: s => (∀ p ∈ MethodHeader.read? (x :: s), p.1.isCallable = false) ∧
      (isStop x.shown = true ∨ NoMethodAhead s)

instance decidableNoMethodAhead : ∀ s, Decidable (NoMethodAhead s)
  | [] => .isTrue trivial
  | x :: s =>
    have := decidableNoMethodAhead s
    inferInstanceAs (Decidable ((∀ p ∈ MethodHeader.read? (x :: s), p.1.isCallable = false) ∧
      (isStop x.shown = true ∨ NoMethodAhead s)))

theorem NoMethodAhead.of_append {a s : List Cell} (ha : ∀ x ∈ a, isStop x.shown = false)
    (h : NoMethodAhead (a ++ s)) : NoMethodAhead s := by
  induction a with
  | nil => exact h
  | cons x a ih =>
    rw [List.forall_mem_cons] at ha
    exact ih ha.2 (h.2.resolve_left (by rw [ha.1]; exact Bool.false_ne_true))

theorem NoMethodAhead.isCallable {s r : List Cell} {header : MethodHeader} (h : NoMethodAhead s)
    (hread : MethodHeader.read? s = some (header, r)) : header.isCallable = false := by
  cases s with
  | nil =>
    obtain ⟨p, b, t, -, hnil, -⟩ := MethodHeader.headerReader.rest hread
    simp at hnil
  | cons x s => exact h.1 _ hread

/-- No method is read where a blank stands. -/
theorem noMethodAhead_blanks {b : List Cell} (hb : ∀ x ∈ b, x.isBlankCode = true) {s : List Cell}
    (h : NoMethodAhead s) : NoMethodAhead (b ++ s) := by
  induction b with
  | nil => exact h
  | cons x b ih =>
    rw [List.forall_mem_cons] at hb
    refine ⟨fun p hp => ?_, .inr (ih hb.2)⟩
    have hp : p ∈ MethodHeader.read? (x :: (b ++ s)) := hp
    rw [MethodHeader.headerReader.blank _ hb.1] at hp
    cases hp

theorem isStop_of_isBlankCode {x : Cell} (hx : x.isBlankCode = true) : isStop x.shown = false := by
  by_contra hstop
  rw [Bool.not_eq_false] at hstop
  exact shown_ne_of_isBlankCode hx (isBlank_of_isStop hstop) rfl

/-- A stop is code, and no blank. -/
theorem isBlank_char_of_isStop {x : Cell} (hx : isStop x.shown = true) : isBlank x.char = false := by
  have hblank := isBlank_of_isStop hx
  cases hcode : x.isCode with
  | true => rwa [Cell.shown, hcode, if_pos rfl] at hblank
  | false =>
    rw [Cell.shown_of_not_isCode hcode] at hblank
    cases hblank

/-- A function depends on its header, on the documentation above it, on its parameters and its
return type. -/
theorem ConnectorFunction.ofOccurrence?_congr {lead lead' : List Cell}
    {o o' : Occurrence MethodHeader} (hheader : o.header = o'.header)
    (hnesting : nesting Cell.shown o.before = nesting Cell.shown o'.before)
    (h : nesting Cell.shown o.before = 0 → o.header.isCallable = true →
      (Leading.ofBefore (lead ++ o.before)).documentation
          = (Leading.ofBefore (lead' ++ o'.before)).documentation ∧
        Option.Rel (fun p p' => (∀ docs, parametersOf docs p.1 = parametersOf docs p'.1) ∧
          returnTypeOf p.2 = returnTypeOf p'.2)
          (enclosed? Cell.shown o.rest) (enclosed? Cell.shown o'.rest)) :
    ofOccurrence? lead o = ofOccurrence? lead' o' := by
  unfold ofOccurrence?
  rw [← hheader, ← hnesting]
  split
  · rename_i htop
    obtain ⟨hdocs, hlist⟩ := h htop.1 htop.2
    generalize enclosed? Cell.shown o.rest = p at hlist ⊢
    generalize enclosed? Cell.shown o'.rest = p' at hlist ⊢
    cases hlist with
    | none => rfl
    | @some p p' hp =>
      simp only [Option.map_some, Leading.documentationLines, hdocs, hp.1, hp.2]
  · rfl

theorem ConnectorFunction.ofOccurrence?_eq_none {lead : List Cell} {o : Occurrence MethodHeader}
    (h : nesting Cell.shown o.before = 0 → o.header.isCallable = false) :
    ofOccurrence? lead o = none :=
  if_neg fun htop => by
    rw [h htop.1] at htop
    exact Bool.false_ne_true htop.2

section Behind

variable {front list gap rest q v : List Cell} {paren close : Cell}
  (hnested : wellNested Cell.shown (front ++ paren :: (list ++ close :: (gap ++ rest))) = true)
  (hparen : paren.shown = '(')
  (henclosed : enclosed? Cell.shown (paren :: (list ++ close :: (gap ++ rest)))
    = some (list, gap ++ rest))
  (hgap : ∀ x ∈ gap, x.isBlankCode = true) (hnext : NoMethodAhead rest) (hrest : rest = q ++ v)
  (hq : ∀ x ∈ q.dropLast, isStop x.shown = false)

include hnested hparen henclosed hgap hnext hrest hq

/-- Up to the first stop behind a parameter list no method that can be called begins at top level, if
none does behind the list. -/
theorem isCallable_of_mem_behind {o : Occurrence MethodHeader}
    (ho : o ∈ occurrences MethodHeader.read? (list ++ close :: (gap ++ q)))
    (htop : nesting Cell.shown (front ++ [paren] ++ o.before) = 0) : o.header.isCallable = false := by
  obtain ⟨s, hsplit, hheader⟩ :=
    (scanned_occurrencesFrom MethodHeader.headerReader [] _).exists_headerAt ho
  obtain ⟨-, hread⟩ := headerAt_eq_some.1 hheader
  obtain ⟨p, b, r, hp, hs, -, hb⟩ := MethodHeader.headerReader.rest hread
  have hsplit : list ++ close :: (gap ++ q) = o.before ++ s := hsplit
  subst hrest
  by_cases hle : o.before.length ≤ list.length
  · -- in the list all is nested
    obtain ⟨l, rfl⟩ := List.prefix_of_prefix_length_le ⟨s, hsplit.symm⟩
      (List.prefix_append list (close :: (gap ++ q))) hle
    rw [List.append_assoc] at hnested henclosed
    refine absurd ?_ (nesting_ne_zero hnested (by rw [hparen]; rfl) henclosed hle)
    simpa using htop
  · -- the header begins behind the list, where no callable one is read
    obtain ⟨c, hbefore⟩ := List.prefix_of_prefix_length_le
      (⟨gap ++ q, by simp⟩ : list ++ [close] <+: list ++ close :: (gap ++ q)) ⟨s, hsplit.symm⟩
      (by simp; omega)
    have hc : gap ++ q = c ++ s := by
      rw [← hbefore] at hsplit
      simpa using hsplit
    have hstops : ∀ x ∈ c, isStop x.shown = false := by
      have hdropLast : (gap ++ q).dropLast = c ++ s.dropLast := by
        rw [hc, List.dropLast_append_of_ne_nil (by simp [hs])]
      intro x hx
      have hx : x ∈ (gap ++ q).dropLast := hdropLast ▸ List.mem_append_left _ hx
      rcases q.eq_nil_or_concat' with rfl | ⟨q, y, rfl⟩
      · rw [List.append_nil] at hx
        exact isStop_of_isBlankCode (hgap x (List.dropLast_subset _ hx))
      · rw [← List.append_assoc, List.dropLast_concat, List.mem_append] at hx
        rw [List.dropLast_concat] at hq
        exact hx.elim (fun hx => isStop_of_isBlankCode (hgap x hx)) (hq x)
    have hahead : NoMethodAhead (c ++ (s ++ v)) := by
      rw [← List.append_assoc, ← hc, List.append_assoc]
      exact noMethodAhead_blanks hgap hnext
    refine (hahead.of_append hstops).isCallable (r := o.rest ++ v) ?_
    rw [MethodHeader.stoppedReader.append s v ⟨b, by simp [hs], hb ▸ rfl⟩, hread]
    rfl

/-- The functions behind a parameter list are those behind the first stop there. -/
theorem filterMap_occurrences_behind (lead : List Cell)
    (hcut : v = [] ∨ ∃ a z, q = a ++ [z] ∧ isStop z.shown = true) :
    (occurrences MethodHeader.read? (list ++ close :: (gap ++ rest))).filterMap
        (ConnectorFunction.ofOccurrence? lead ∘ Occurrence.shift (front ++ [paren]))
      = (occurrences MethodHeader.read? v).filterMap (ConnectorFunction.ofOccurrence? lead ∘
          Occurrence.shift (front ++ paren :: (list ++ close :: (gap ++ q)))) := by
  have hsplit : occurrences MethodHeader.read? (list ++ close :: (gap ++ rest))
      = (occurrences MethodHeader.read? (list ++ close :: (gap ++ q))).map (Occurrence.extend v)
        ++ (occurrences MethodHeader.read? v).map
          (Occurrence.shift (list ++ close :: (gap ++ q))) := by
    rcases hcut with rfl | ⟨a, z, rfl, hz⟩
    · have hextend : Occurrence.extend ([] : List Cell) = fun o : Occurrence MethodHeader => o :=
        funext fun o => by simp [Occurrence.extend]
      simp [hrest, hextend, occurrences, occurrencesFrom]
    · have := MethodHeader.stoppedReader.occurrences_append hz (list ++ close :: (gap ++ a)) v
      simpa [hrest] using this
  have hnone : ((occurrences MethodHeader.read? (list ++ close :: (gap ++ q))).filterMap fun o =>
      ConnectorFunction.ofOccurrence? lead ((o.extend v).shift (front ++ [paren]))) = [] := by
    rw [List.filterMap_eq_nil_iff]
    exact fun o ho => ConnectorFunction.ofOccurrence?_eq_none
      (isCallable_of_mem_behind (o := o) hnested hparen henclosed hgap hnext hrest hq ho)
  rw [hsplit, List.filterMap_append, List.filterMap_map, List.filterMap_map]
  refine Eq.trans (congrArg (· ++ _) hnone) ?_
  rw [List.nil_append]
  refine congrArg (List.filterMap · _) (funext fun o => ?_)
  simp [Occurrence.shift]

end Behind

theorem exists_stop_split (s : List Cell) : ∃ q v, s = q ++ v ∧
    (∀ x ∈ q.dropLast, isStop x.shown = false) ∧
      (v = [] ∨ ∃ a z, q = a ++ [z] ∧ isStop z.shown = true) := by
  have hsplit := List.takeWhile_append_dropWhile (p := fun x : Cell => !isStop x.shown) (l := s)
  have hfront : ∀ x ∈ s.takeWhile fun x => !isStop x.shown, isStop x.shown = false := by
    intro x hx
    simpa using List.mem_takeWhile_imp hx
  cases hrest : s.dropWhile fun x => !isStop x.shown with
  | nil =>
    rw [hrest] at hsplit
    exact ⟨_, [], hsplit.symm, fun x hx => hfront x (List.dropLast_subset _ hx), .inl rfl⟩
  | cons z v =>
    have hz := List.head?_dropWhile_not (fun x : Cell => !isStop x.shown) s
    rw [hrest] at hsplit hz
    refine ⟨s.takeWhile (fun x => !isStop x.shown) ++ [z], v, by simpa using hsplit.symm,
      by rwa [List.dropLast_concat], .inr ⟨_, z, rfl, by simpa using hz⟩⟩

theorem MethodHeader.length_of_read? {s t : List Cell} {h : MethodHeader}
    (hs : MethodHeader.read? s = some (h, t)) : t.length + "function".toList.length ≤ s.length := by
  obtain ⟨u, hk, hu⟩ := Option.bind_eq_some_iff.1 hs
  obtain ⟨b, r, rfl, -, hrest⟩ := rest_of_signature? hu
  have hlength := length_of_keyword? hk
  have hqualifiers := (suffix_qualifiers MethodHeader.words s).length_le
  have hsignature := hrest.length_le
  omega

/-- Behind some text and a method header no less is left than the keyword of the header. -/
theorem length_le_afterBlanks {hdr : List Cell} {paren : Cell} {header : MethodHeader}
    (h : MethodHeader.read? (hdr ++ [paren]) = some (header, [paren])) (s a : List Cell) :
    "returns".toList.length ≤ (afterBlanks (s ++ (hdr ++ paren :: a))).length := by
  have hlength := MethodHeader.length_of_read? h
  obtain ⟨x, r, hx⟩ : ∃ x r, hdr = x :: r := by
    cases hdr with
    | nil => simp at hlength
    | cons x r => exact ⟨x, r, rfl⟩
  have hblank : x.isBlankCode = false := by
    by_contra hblank
    rw [hx, List.cons_append, MethodHeader.headerReader.blank _ (by simpa using hblank)] at h
    cases h
  have hle : (hdr ++ paren :: a).length ≤ (afterBlanks (s ++ (hdr ++ paren :: a))).length := by
    rw [hx, List.cons_append, afterBlanks, List.dropWhile_append]
    split
    · rw [List.dropWhile_cons, if_neg (by rw [hblank]; exact Bool.false_ne_true)]
    · rw [List.length_append]
      omega
  have hreturns : "returns".toList.length ≤ "function".toList.length := by decide
  simp only [List.length_append, List.length_cons, List.length_nil] at hlength hle
  omega

/-- In a well nested text all brackets of the headers are closed, those in front of the last one in
front of that. -/
theorem StoppedReader.exists_enclosed? {η : Type} {read? : List Cell → Option (η × List Cell)}
    {bracket : Char} (hread : StoppedReader read? bracket) (hbracket : (closing? bracket).isSome)
    {before q : List Cell} {b : Cell} {header : η}
    (ho : ⟨before, header, [b]⟩ ∈ occurrences read? (before ++ (q ++ [b])))
    {o : Occurrence η} (ho' : o ∈ occurrences read? (before ++ (q ++ [b])))
    (hne : o ≠ ⟨before, header, [b]⟩) (hnested : wellNested Cell.shown before = true) :
    ∃ p c r body after, before = o.before ++ (p ++ c :: r) ∧ o.rest = c :: (r ++ (q ++ [b])) ∧
      enclosed? Cell.shown (c :: r) = some (body, after) := by
  obtain ⟨p, c, r, hbefore, hrest, hc⟩ := hread.ends_before ho ho' hne
  rw [hbefore, ← List.append_assoc] at hnested
  obtain ⟨⟨body, after⟩, hbody⟩ : ∃ q, enclosed? Cell.shown (c :: r) = some q := by
    rw [← Option.isSome_iff_exists, ConnectorCatalog.enclosed?, Option.isSome_map]
    exact closeIndex?_isSome hnested (by rwa [hc])
  exact ⟨p, c, r, body, after, hbefore, hrest, hbody⟩

section Functions

variable {inner hdr a w xs : List Cell} {paren : Cell} {header : MethodHeader}
  (hmethod : ⟨inner, header, [paren]⟩ ∈ occurrences MethodHeader.read? (inner ++ (hdr ++ [paren])))
  (htop : nesting Cell.shown inner = 0)
  (hnested : wellNested Cell.shown (inner ++ (hdr ++ paren :: (a ++ w))) = true)

include hmethod htop hnested

/-- A method in front of another one is read with a list and a type that end before that. -/
theorem rel_enclosed?_of_before {o : Occurrence MethodHeader}
    (ho : o ∈ occurrences MethodHeader.read? (inner ++ (hdr ++ [paren])))
    (hne : o ≠ ⟨inner, header, [paren]⟩)
    (htype : ∀ list r, enclosed? Cell.shown (o.rest ++ (a ++ w)) = some (list, r ++ w) → TypeEnds r)
    (t : List Cell) :
    Option.Rel (fun p p' => (∀ docs, parametersOf docs p.1 = parametersOf docs p'.1) ∧
        returnTypeOf p.2 = returnTypeOf p'.2)
      (enclosed? Cell.shown (o.rest ++ (a ++ w))) (enclosed? Cell.shown (o.rest ++ (a ++ t))) := by
  obtain ⟨p, c, r, list, after, -, hrest, hlist⟩ := MethodHeader.stoppedReader.exists_enclosed? rfl
    hmethod ho hne (wellNested_of_nesting hnested htop)
  have hsplit : ∀ t, enclosed? Cell.shown (o.rest ++ (a ++ t))
      = some (list, (after ++ (hdr ++ paren :: a)) ++ t) := by
    intro t
    have := enclosed?_append hlist (hdr ++ paren :: (a ++ t))
    simpa [hrest] using this
  have hlength : "returns".toList.length ≤ (afterBlanks (after ++ (hdr ++ paren :: a))).length := by
    obtain ⟨s, hs, hheader⟩ :=
      (scanned_occurrencesFrom MethodHeader.headerReader [] _).exists_headerAt hmethod
    obtain rfl : hdr ++ [paren] = s := List.append_cancel_left hs
    exact length_le_afterBlanks (headerAt_eq_some.1 hheader).2 after a
  have hends := htype _ _ (hsplit w)
  rw [hsplit, hsplit]
  exact .some ⟨fun _ => rfl, by rw [hends.returnTypeOf hlength, hends.returnTypeOf hlength]⟩

omit hmethod htop in
/-- The functions behind the parenthesis of a method are the same with blanks at a free place. -/
theorem filterMap_behind_congr (hparen : paren.shown = '(')
    {list list' gap gap' inside rest : List Cell} {close : Cell}
    (hread : ReadAround paren a w xs list list' gap gap' inside rest close)
    (hxs : ∀ x ∈ xs, x.isBlankCode = true)
    (hnext : ∀ p ∈ enclosed? Cell.shown (paren :: (a ++ w)), NoMethodAhead p.2)
    {lead : List Cell} (hdocs : ∀ b, b <+: w → (∃ y ∈ b, isBlank y.char = false) →
      nesting Cell.shown (inner ++ (hdr ++ paren :: (a ++ b))) = 0 →
      (Leading.ofBefore (lead ++ (inner ++ (hdr ++ paren :: (a ++ b))))).documentation
        = (Leading.ofBefore (lead ++ (inner ++ (hdr ++ paren :: (a ++ (xs ++ b)))))).documentation) :
    (occurrences MethodHeader.read? (a ++ w)).filterMap
        (ConnectorFunction.ofOccurrence? lead ∘ Occurrence.shift (inner ++ hdr ++ [paren]))
      = (occurrences MethodHeader.read? (a ++ (xs ++ w))).filterMap
        (ConnectorFunction.ofOccurrence? lead ∘ Occurrence.shift (inner ++ hdr ++ [paren])) := by
  obtain ⟨q, v, hrest, hq, hcut⟩ := exists_stop_split rest
  have hnested' : wellNested Cell.shown (inner ++ (hdr ++ paren :: (a ++ (xs ++ w)))) = true := by
    have hinsert := wellNestedFrom_insert hxs (inner ++ (hdr ++ paren :: a)) w []
    simp only [List.append_assoc, List.cons_append] at hinsert
    rwa [wellNested, hinsert]
  have hlist : a ++ w = list ++ close :: (gap ++ rest) := by
    rw [hread.list_append, hread.behind]
  have hlist' : a ++ (xs ++ w) = list' ++ close :: (gap' ++ rest) := by
    rw [hread.list_append', hread.behind]
  have hgap : ∀ {gap : List Cell}, (∀ x ∈ gap, x.isBlankCode = true) →
      ∀ x ∈ gap, isStop x.shown = false := fun h x hx => isStop_of_isBlankCode (h x hx)
  have henclosed := hread.enclosed
  have henclosed' := hread.enclosed'
  have hahead := (hnext _ henclosed).of_append (hgap hread.blank)
  rw [hlist] at henclosed hnested ⊢
  rw [hlist'] at henclosed' hnested' ⊢
  rw [filterMap_occurrences_behind (by simpa using hnested) hparen henclosed hread.blank hahead
      hrest hq lead hcut,
    filterMap_occurrences_behind (by simpa using hnested') hparen henclosed' hread.blank' hahead
      hrest hq lead hcut]
  -- the functions behind the first stop there have the same text in front but for the blanks
  have hbefore : ∀ o : Occurrence MethodHeader,
      inner ++ hdr ++ paren :: (list ++ close :: (gap ++ q)) ++ o.before
        = inner ++ (hdr ++ paren :: (a ++ (inside ++ q ++ o.before))) := by
    intro o
    simp [hread.list_append]
  have hbefore' : ∀ o : Occurrence MethodHeader,
      inner ++ hdr ++ paren :: (list' ++ close :: (gap' ++ q)) ++ o.before
        = inner ++ (hdr ++ paren :: (a ++ (xs ++ (inside ++ q ++ o.before)))) := by
    intro o
    simp [hread.list_append']
  refine List.filterMap_congr fun o ho => ConnectorFunction.ofOccurrence?_congr rfl ?_ ?_
  · rw [Occurrence.shift, Occurrence.shift, hbefore, hbefore']
    simp only [nesting_append, nesting, nesting_of_blank hxs, Int.zero_add]
  · rw [Occurrence.shift, Occurrence.shift, hbefore, hbefore']
    refine fun hotop _ => ⟨hdocs _ ?_ ?_ hotop, ?_⟩
    · obtain ⟨p, b, r, hv, -⟩ := split_of_mem_occurrences MethodHeader.headerReader ho
      rw [hread.behind, hrest, hv]
      exact ⟨p ++ b :: r, by simp⟩
    · rcases hcut with rfl | ⟨c, z, rfl, hz⟩
      · cases ho
      · exact ⟨z, by simp, isBlank_char_of_isStop hz⟩
    · cases enclosed? Cell.shown o.rest with
      | none => exact .none
      | some p => exact .some ⟨fun _ => rfl, rfl⟩

/-- The functions of a class body are the same with blanks at a free place. -/
theorem functionsOf_blanks (hparen : paren.shown = '(') (hplace : FreePlace paren a w)
    (hxs : ∀ x ∈ xs, x.isBlankCode = true)
    (hnext : ∀ p ∈ enclosed? Cell.shown (paren :: (a ++ w)), NoMethodAhead p.2)
    (htypes : ∀ o ∈ occurrences MethodHeader.read? (inner ++ (hdr ++ [paren])),
      nesting Cell.shown o.before = 0 → o.header.isCallable = true →
      o ≠ ⟨inner, header, [paren]⟩ → ∀ list r,
        enclosed? Cell.shown (o.rest ++ (a ++ w)) = some (list, r ++ w) → TypeEnds r)
    {lead : List Cell} (hdocs : ∀ b, b <+: w → (∃ y ∈ b, isBlank y.char = false) →
      nesting Cell.shown (inner ++ (hdr ++ paren :: (a ++ b))) = 0 →
      (Leading.ofBefore (lead ++ (inner ++ (hdr ++ paren :: (a ++ b))))).documentation
        = (Leading.ofBefore (lead ++ (inner ++ (hdr ++ paren :: (a ++ (xs ++ b)))))).documentation) :
    functionsOf lead (inner ++ (hdr ++ paren :: (a ++ w)))
      = functionsOf lead (inner ++ (hdr ++ paren :: (a ++ (xs ++ w)))) := by
  obtain ⟨list, list', gap, gap', inside, rest, close, hread⟩ := hplace.exists_readAround hxs
  have hstop : isStop paren.shown = true := by rw [hparen]; rfl
  have hsplit : ∀ t, functionsOf lead (inner ++ (hdr ++ paren :: t))
      = (occurrences MethodHeader.read? (inner ++ (hdr ++ [paren]))).filterMap
          (ConnectorFunction.ofOccurrence? lead ∘ Occurrence.extend t)
        ++ (occurrences MethodHeader.read? t).filterMap
          (ConnectorFunction.ofOccurrence? lead ∘ Occurrence.shift (inner ++ hdr ++ [paren])) := by
    intro t
    rw [functionsOf, ← List.append_assoc, MethodHeader.stoppedReader.occurrences_append hstop,
      List.filterMap_append, List.filterMap_map, List.filterMap_map, List.append_assoc inner hdr]
  rw [hsplit, hsplit]
  refine congrArg₂ _ (List.filterMap_congr fun o ho => ?_)
    (filterMap_behind_congr hnested hparen hread hxs hnext hdocs)
  refine ConnectorFunction.ofOccurrence?_congr rfl rfl fun hotop hocallable => ⟨rfl, ?_⟩
  by_cases hne : o = ⟨inner, header, [paren]⟩
  · subst hne
    show Option.Rel _ (enclosed? Cell.shown (paren :: (a ++ w)))
      (enclosed? Cell.shown (paren :: (a ++ (xs ++ w))))
    rw [hread.enclosed, hread.enclosed']
    refine .some ⟨fun docs => (hread.parameters docs).symm, ?_⟩
    rw [returnTypeOf_append hread.blank, returnTypeOf_append hread.blank']
  · exact rel_enclosed?_of_before hmethod htop hnested ho hne
      (htypes o ho hotop hocallable hne) (xs ++ w)

end Functions

end Methods

end ConnectorCatalog
