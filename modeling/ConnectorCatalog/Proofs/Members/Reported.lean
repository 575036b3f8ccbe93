import ConnectorCatalog.Proofs.ClientMethod
import ConnectorCatalog.Proofs.Members.Basic
import ConnectorCatalog.Proofs.Offset.ReturnType
import ConnectorCatalog.Proofs.Trim
import Mathlib.Data.List.Forall2

/-!
# The callable members of a class are reported

What a class with some members reports is what the classes with one member each report, in order
(`functions_of_members`). A function that is reported has a header outside of all brackets of a
member, and not in an initialiser either: a header begins with words that do not stand in an expression
(`exists_beginsCallable`).
-/

namespace ConnectorCatalog

section Words

theorem isWordChar_of_isBlank {c : Char} (h : isBlank c = true) : isWordChar c = false := by
  have hcodes : ∀ n ∈ [0x20, 0x85, 0xA0, 0x1680, 0x2028, 0x2029, 0x202F, 0x205F, 0x3000],
      isWordChar (Char.ofNat n) = false := by decide +kernel
  have hcontrols : ∀ k < 5, isWordChar (Char.ofNat (9 + k)) = false := by decide +kernel
  have hspaces : ∀ k < 11, isWordChar (Char.ofNat (0x2000 + k)) = false := by decide +kernel
  rw [← Char.ofNat_toNat c]
  simp only [isBlank, Bool.or_eq_true, Bool.and_eq_true, decide_eq_true_eq, beq_iff_eq] at h
  rcases h with (((((((((⟨h, h'⟩ | h) | h) | h) | h) | ⟨h, h'⟩) | h) | h) | h) | h) | h
  · obtain ⟨k, hk⟩ := Nat.exists_eq_add_of_le h
    exact hk ▸ hcontrols k (by omega)
  all_goals first
    | exact h ▸ hcodes _ (by decide)
    | obtain ⟨k, hk⟩ := Nat.exists_eq_add_of_le h
      exact hk ▸ hspaces k (by omega)

theorem nestingStep_of_isBlank {c : Char} (h : isBlank c = true) : nestingStep c = 0 := by
  unfold nestingStep
  rw [if_neg, if_neg]
  · rintro (rfl | rfl | rfl) <;> exact absurd h (by decide)
  · rintro (rfl | rfl | rfl) <;> exact absurd h (by decide)

theorem nesting_eq_zero {s : List Cell} (h : ∀ x ∈ s, nestingStep x.shown = 0) :
    nesting Cell.shown s = 0 := by
  induction s with
  | nil => rfl
  | cons x s ih =>
    rw [List.forall_mem_cons] at h
    rw [nesting, h.1, ih h.2, Int.zero_add]

/-- What stands in front of `r` has its brackets closed, and a word may begin at `r` where it may
begin in front. -/
def Passed (s r : List Cell) : Prop :=
  ∃ v, s = v ++ r ∧ nesting Cell.shown v = 0 ∧
    ∀ before, atWordStart before = true → atWordStart (v.reverse ++ before) = true

theorem Passed.refl (s : List Cell) : Passed s s := ⟨[], rfl, rfl, fun _ h => h⟩

theorem Passed.trans {s r t : List Cell} (h : Passed s r) (h' : Passed r t) : Passed s t := by
  obtain ⟨v, rfl, hv, hword⟩ := h
  obtain ⟨v', rfl, hv', hword'⟩ := h'
  refine ⟨v ++ v', by simp, by rw [nesting_append, hv, hv', Int.zero_add], fun before hbefore => ?_⟩
  rw [List.reverse_append, List.append_assoc]
  exact hword' _ (hword _ hbefore)

theorem passed_of_keywordBlanks? {w : List Char} (hw : ∀ c ∈ w, nestingStep c = 0) {s r : List Cell}
    (h : keywordBlanks? w s = some r) : Passed s r := by
  unfold keywordBlanks? at h
  split at h
  · rename_i x t hk
    split at h
    · rename_i hx
      obtain ⟨k, rfl, rfl⟩ := keyword?_eq_some hk
      obtain rfl := Option.some_inj.1 h
      -- the blanks behind the word
      have hblanks : ∀ y ∈ x :: t.takeWhile Cell.isBlankCode, y.isBlankCode = true :=
        List.forall_mem_cons.2 ⟨hx, fun y hy => List.mem_takeWhile_imp hy⟩
      refine ⟨k ++ x :: t.takeWhile Cell.isBlankCode, ?_, ?_, fun before _ => ?_⟩
      · rw [List.append_assoc, List.cons_append, afterBlanks, List.takeWhile_append_dropWhile]
      · rw [nesting_append, nesting_eq_zero fun y hy => hw _ (List.mem_map_of_mem hy),
          nesting_eq_zero fun y hy => nestingStep_of_isBlank (hblanks y hy), Int.zero_add]
      · obtain ⟨b, y, hb⟩ := List.eq_nil_or_concat' (x :: t.takeWhile Cell.isBlankCode) |>.resolve_left
          (List.cons_ne_nil _ _)
        rw [hb] at hblanks ⊢
        have hy := isWordChar_of_isBlank (hblanks y (by simp))
        simp [atWordStart, hy]
    · cases h
  · cases h

/-- The words at the beginning of a header, and what stands behind them. -/
theorem passed_qualifiers {ws : List String} (hws : ∀ w ∈ ws, ∀ c ∈ w.toList, nestingStep c = 0)
    (s : List Cell) : Passed s (qualifiers ws s).2 ∧
      ∀ q ∈ (qualifiers ws s).1, ∃ r, Passed s r ∧ (keywordBlanks? q.toList r).isSome = true := by
  induction hn : s.length using Nat.strongRecOn generalizing s with
  | _ n ih =>
    cases h : oneOf? ws s with
    | none =>
      rw [qualifiers_of_none h]
      exact ⟨.refl s, nofun⟩
    | some p =>
      obtain ⟨w, r⟩ := p
      obtain ⟨v, hv, hfound⟩ := List.exists_of_findSome?_eq_some h
      obtain ⟨t, ht, he⟩ := Option.map_eq_some_iff.1 hfound
      obtain ⟨rfl, rfl⟩ := Prod.mk.inj he
      have hpassed := passed_of_keywordBlanks? (hws v hv) ht
      obtain ⟨hrest, hwords⟩ := ih t.length (hn ▸ length_of_oneOf? h) t rfl
      rw [qualifiers_of_some h]
      refine ⟨hpassed.trans hrest, List.forall_mem_cons.2 ⟨⟨s, .refl s, ?_⟩, fun q hq => ?_⟩⟩
      · rw [ht, Option.isSome_some]
      · obtain ⟨r, hr, hq⟩ := hwords q hq
        exact ⟨r, hpassed.trans hr, hq⟩

/-- A word that only a method begins with stands here: `remote`, `resource`, or `function` in front of
`init`. -/
def BeginsCallable (s : List Cell) : Prop :=
  (keywordBlanks? "remote".toList s).isSome = true ∨
    (keywordBlanks? "resource".toList s).isSome = true ∨
    ∃ t ∈ (keywordBlanks? "function".toList s).bind (keyword? "init".toList),
      ∀ x ∈ t.head?, isWordChar x.shown = false

theorem trimEnd_eq {s : List Char} : ∃ b, s = trimEnd s ++ b ∧ ∀ c ∈ b, isBlank c = true := by
  refine ⟨(s.reverse.takeWhile isBlank).reverse, ?_, fun c hc => ?_⟩
  · rw [trimEnd, dropEndWhile, ← List.reverse_append, List.takeWhile_append_dropWhile,
      List.reverse_reverse]
  · exact List.mem_takeWhile_imp (List.mem_reverse.1 hc)

/-- A word that is all of a text, blanks apart, is read there. -/
theorem keyword?_of_trim {w : List Char} (hw : IsKeyword w) {s : List Cell}
    (hs : trim (masked s) = w) :
    ∃ t, keyword? w (afterBlanks s) = some t ∧ ∀ x ∈ t, x.isBlankCode = true := by
  obtain ⟨b, hb, hblank⟩ := trimEnd_eq (s := masked (afterBlanks s))
  have hstart : trimStart (masked s) = masked (afterBlanks s) := dropWhile_isBlank_masked s
  rw [← hstart, ← trim_eq, hs, hstart] at hb
  have hprefix := isPrefixOf_masked hw (afterBlanks s)
  rw [hb, List.isPrefixOf_iff_prefix.2 (List.prefix_append w b), eq_comm] at hprefix
  obtain ⟨t, ht⟩ := Option.isSome_iff_exists.1 hprefix
  obtain ⟨k, hk, hshown⟩ := keyword?_eq_some ht
  have hmasked : masked k = w := by
    have hcode : ∀ x ∈ k, x.masked = [x.shown] := fun x hx =>
      Cell.masked_of_not_blank (hw _ (hshown ▸ List.mem_map_of_mem hx)).1
    rw [← hshown, masked, List.flatMap_congr hcode, List.map_eq_flatMap]
  rw [hk, masked_append, hmasked, List.append_cancel_left_eq] at hb
  refine ⟨t, ht, fun x hx => ?_⟩
  cases hcode : x.isBlankCode with
  | true => rfl
  | false =>
    have hmem : x.shown ∈ masked t :=
      List.mem_flatMap.2 ⟨x, hx, by simp [Cell.masked_of_not_blank hcode]⟩
    rw [← hcode]
    exact hblank _ (hb ▸ hmem)

/-- What a method header is read from. -/
theorem exists_of_read? {s : List Cell} {p : MethodHeader × List Cell}
    (h : MethodHeader.read? s = some p) : ∃ x u y rest,
      keyword? "function".toList (qualifiers MethodHeader.words s).2 = some (x :: (u ++ y :: rest)) ∧
      x.isBlankCode = true ∧ y.shown = '(' ∧
      p = (⟨(qualifiers MethodHeader.words s).1, trim (masked (x :: u))⟩, y :: rest) := by
  obtain ⟨t, ht, hsignature⟩ := Option.bind_eq_some_iff.1 h
  cases t with
  | nil => cases hsignature
  | cons x t =>
    rw [MethodHeader.signature?] at hsignature
    split at hsignature
    · rename_i hx
      split at hsignature
      · rename_i y rest hy
        simp only at hsignature
        split at hsignature
        · rename_i hparen
          refine ⟨x, _, y, rest, ?_, hx, hparen.1, (Option.some_inj.1 hsignature).symm⟩
          rw [ht, ← hy, List.takeWhile_append_dropWhile]
        · cases hsignature
      · cases hsignature
    · cases hsignature

/-- Where `init` is all that stands in front of a parenthesis, the word is read, and it ends there. -/
theorem keyword?_init {x y : Cell} {u : List Cell} (hx : x.isBlankCode = true)
    (hparen : y.shown = '(') (hsignature : trim (masked (x :: u)) = "init".toList)
    (rest : List Cell) : ∃ t, keyword? "init".toList (afterBlanks (u ++ y :: rest)) = some t ∧
      ∀ z ∈ t.head?, isWordChar z.shown = false := by
  obtain ⟨t, ht, hblank⟩ := keyword?_of_trim (by decide +kernel) hsignature
  obtain ⟨k, hk, hshown⟩ := keyword?_eq_some ht
  rw [afterBlanks_cons_of_blank hx] at hk
  have hafter : afterBlanks (u ++ y :: rest) = k ++ (t ++ y :: rest) := by
    have hne : k ++ t ≠ [] := by
      rw [Ne, List.append_eq_nil_iff]
      rintro ⟨rfl, -⟩
      cases hshown
    rw [afterBlanks, List.dropWhile_append, ← afterBlanks, hk, if_neg (by rwa [List.isEmpty_iff]),
      List.append_assoc]
  refine ⟨t ++ y :: rest, by rw [hafter, keyword?_append_of_shown hshown], fun z hz => ?_⟩
  cases t with
  | nil =>
    obtain rfl : y = z := by simpa using hz
    rw [hparen]
    decide
  | cons z' t =>
    obtain rfl : z' = z := by simpa using hz
    exact isWordChar_of_isBlank (hblank _ (List.mem_cons_self ..))

/-- A header that is reported has, with closed brackets before it, a word that only methods have. -/
theorem exists_beginsCallable {s : List Cell} {p : MethodHeader × List Cell}
    (hread : MethodHeader.read? s = some p) (hcallable : p.1.isCallable = true) :
    ∃ r, Passed s r ∧ BeginsCallable r := by
  have hbrackets : ∀ w ∈ MethodHeader.words, ∀ c ∈ w.toList, nestingStep c = 0 := by
    simp [MethodHeader.words, nestingStep]
  obtain ⟨hpassed, hwords⟩ := passed_qualifiers hbrackets s
  obtain ⟨x, u, y, rest, hfunction, hx, hparen, rfl⟩ := exists_of_read? hread
  simp only [MethodHeader.isCallable, Bool.or_eq_true, beq_iff_eq, decide_eq_true_eq] at hcallable
  have hresource : "resource" ∈ (qualifiers MethodHeader.words s).1 →
      ∃ r, Passed s r ∧ BeginsCallable r := by
    intro h
    obtain ⟨r, hr, hword⟩ := hwords _ h
    exact ⟨r, hr, .inr (.inl hword)⟩
  rcases hcallable with (hname | hremote) | h
  · by_cases h : "resource" ∈ (qualifiers MethodHeader.words s).1
    · exact hresource h
    -- the name is all that stands between `function` and the parenthesis
    rw [MethodHeader.nameAndPath, if_neg h] at hname
    have hsignature : trim (masked (x :: u)) = "init".toList := by
      rw [← hname, String.toList_ofList]
    obtain ⟨t, ht, hstop⟩ := keyword?_init hx hparen hsignature rest
    refine ⟨_, hpassed, .inr (.inr ⟨t, ?_, hstop⟩)⟩
    rw [keywordBlanks?, hfunction]
    simp only [hx, if_true, Option.bind_some, Option.mem_def, ht]
  · obtain ⟨r, hr, hword⟩ := hwords _ hremote
    exact ⟨r, hr, .inl hword⟩
  · exact hresource h

/-- Cells behind an `=`: outside of brackets none of the words stands that only a method begins with. -/
def IsInitialiser (e : List Cell) : Prop :=
  ∀ v w, e = v ++ w → nesting Cell.shown v = 0 → atWordStart v.reverse = true → ¬ BeginsCallable w

/-- Behind the cells `u` of a member, all brackets of it are closed and no initialiser has begun. -/
def StandsOutside (m : List Char) (u : List Cell) : Prop :=
  wellNested Cell.shown u = true ∧ ∀ a x e, Scan.inLine.cells m = a ++ x :: e → x.shown = '=' →
    nesting Cell.shown a = 0 → IsInitialiser e → u.length ≤ a.length

/-- The header of a method that is reported stands outside of the brackets and initialisers. -/
theorem standsOutside_of_isCallable {m : List Char} {o : Occurrence MethodHeader}
    (ho : o ∈ occurrences MethodHeader.read? (Scan.inLine.cells m))
    (hnested : wellNested Cell.shown o.before = true) (hcallable : o.header.isCallable = true) :
    StandsOutside m o.before := by
  refine ⟨hnested, fun a x e hm hx ha he => ?_⟩
  by_contra hlt
  obtain ⟨s, hsplit, hheader⟩ :=
    (scanned_occurrencesFrom MethodHeader.headerReader [] _).exists_headerAt ho
  obtain ⟨hword, hread⟩ := headerAt_eq_some.1 hheader
  rw [List.reverse_nil, List.nil_append, hm] at hsplit
  obtain ⟨inner, hbefore⟩ : a ++ [x] <+: o.before := by
    refine List.prefix_of_prefix_length_le (?_ : _ <+: a ++ x :: e) ?_ ?_
    · exact ⟨e, by simp⟩
    · exact ⟨s, hsplit.symm⟩
    · simp only [List.length_append, List.length_singleton]
      omega
  have he' : e = inner ++ s := by
    rw [← hbefore] at hsplit
    simpa using hsplit
  have hinner : nesting Cell.shown inner = 0 := by
    have := nesting_of_wellNested hnested
    rw [← hbefore, nesting_append, nesting_append, ha, nesting, hx] at this
    simpa [nesting, nestingStep] using this
  have hstart : atWordStart inner.reverse = true := by
    rw [← hbefore] at hword
    rcases inner.eq_nil_or_concat' with rfl | ⟨b, y, rfl⟩
    · rfl
    · simpa [atWordStart] using hword
  obtain ⟨r, ⟨v, rfl, hv, hpassed⟩, hbegins⟩ := exists_beginsCallable hread hcallable
  refine he (inner ++ v) r (by rw [he', List.append_assoc]) ?_ ?_ hbegins
  · rw [nesting_append, hinner, hv, Int.zero_add]
  · rw [List.reverse_append]
    exact hpassed _ hstart

end Words

/-- A function is described where a header of a callable method stands outside of all brackets. -/
theorem callable_of_ofOccurrence? {lead : List Cell} {o : Occurrence MethodHeader}
    {f : ConnectorFunction} (h : ConnectorFunction.ofOccurrence? lead o = some f) :
    nesting Cell.shown o.before = 0 ∧ o.header.isCallable = true ∧
      f.name = o.header.nameAndPath.1 ∧ f.qualifiers = o.header.qualifiers := by
  unfold ConnectorFunction.ofOccurrence? at h
  split at h
  · rename_i ho
    obtain ⟨p, -, rfl⟩ := Option.map_eq_some_iff.1 h
    exact ⟨ho.1, ho.2, rfl, rfl⟩
  · cases h

theorem exists_forall₂_flatMap {α β γ : Type _} {P : α → β → Prop} {f : β → List γ}
    {g : α → List γ} : ∀ {xs : List α}, (∀ x ∈ xs, ∃ y, P x y ∧ f y = g x) →
      ∃ ys, List.Forall₂ P xs ys ∧ ys.flatMap f = xs.flatMap g
  | [], _ => ⟨[], .nil, rfl⟩
  | x :: xs, h => by
    rw [List.forall_mem_cons] at h
    obtain ⟨y, hy, hf⟩ := h.1
    obtain ⟨ys, hys, hflat⟩ := exists_forall₂_flatMap h.2
    exact ⟨y :: ys, .cons hy hys, by rw [List.flatMap_cons, List.flatMap_cons, hf, hflat]⟩

/-- A class in a source: the text up to its brace, what stands behind its members, and the text behind
its body; then the cells before its header, the header and the brace. -/
structure ClassFrame where
  front : List Char
  remainder : List Char
  after : List Char
  before : List Cell
  header : ClassHeader
  brace : Cell

namespace ClassFrame

variable (k : ClassFrame)

/-- The text is that of a public client class at top level. -/
structure IsWritten : Prop where
  isClass : ⟨k.before, k.header, [k.brace]⟩ ∈ occurrences ClassHeader.read? (cells k.front)
  isTop : nesting Cell.shown k.before = 0
  isConnector : k.header.isConnector = true
  remainder : IsRemainder k.remainder

/-- The cells of the class body with some members. -/
def body (ms : List (List Char)) : List Cell := Scan.inLine.cells (ms.flatten ++ k.remainder)

/-- The source in which the class has some members. -/
def source (ms : List (List Char)) : List Char :=
  k.front ++ (ms.flatten ++ k.remainder ++ '\x7d' :: k.after)

/-- The class with some members, as it is found in the source. -/
def occurrence (ms : List (List Char)) : Occurrence ClassHeader :=
  ⟨k.before, k.header,
    k.brace :: Scan.inLine.cells (ms.flatten ++ k.remainder ++ '\x7d' :: k.after)⟩

/-- The connector that the class with some members describes. -/
def connector? (package : PackageName) (moduleName : String) (ms : List (List Char)) :
    Option Connector :=
  Connector.ofOccurrence? package moduleName .detailed (cells (k.source ms)) (k.occurrence ms)

end ClassFrame

section

variable {k : ClassFrame} (hk : k.IsWritten) (package : PackageName) (moduleName : String)

include hk

/-- The class with some members is a connector of its source, and its functions are those of its
body. -/
theorem exists_connector_of_members {ms : List (List Char)} (hms : ∀ m ∈ ms, IsMember m) :
    ∃ c, k.connector? package moduleName ms = some c ∧
      c ∈ connectorsOfSource package moduleName .detailed (String.ofList (k.source ms)) ∧
      c.functions = functionsOf (cells k.front) (k.body ms) := by
  obtain ⟨p, b, r, hfront, hrest, hbrace⟩ :=
    split_of_mem_occurrences ClassHeader.headerReader hk.isClass
  obtain ⟨rfl, rfl⟩ : k.brace = b ∧ [] = r := by simpa using hrest
  rw [← List.append_assoc] at hfront
  obtain ⟨hcells, hcode, hmark, -⟩ := Scan.cells_at_mark hfront (c := '\x7b') (by decide) hbrace
  have htext : k.front = chars (k.before ++ p) ++ ['\x7b'] := by
    rw [← chars_cells k.front, hfront, hmark, Offset.chars_append (k.before ++ p)]
    rfl
  have hsource : cells (k.source ms) = k.before ++ p ++ (k.occurrence ms).rest := by
    rw [ClassFrame.source, htext, List.append_assoc, List.singleton_append, cells,
      (Scan.append_mark (by decide) hcode _).1, hcells, ← hmark]
    rfl
  obtain ⟨hneutral, hend⟩ := neutral_members hms hk.remainder
  have hbody : enclosed? Cell.shown (k.occurrence ms).rest
      = some (k.body ms, Scan.inLine.cells k.after) := by
    rw [ClassFrame.occurrence, (Scan.append_mark (c := '\x7d') (by decide) hend k.after).1]
    exact enclosed?_of_neutral (by rw [hbrace]; rfl) hneutral _
  have hmem : k.occurrence ms ∈ occurrences ClassHeader.read? (cells (k.source ms)) := by
    have := hk.isClass
    rw [hfront] at this
    rw [hsource]
    exact ClassHeader.stoppedReader.mem_occurrences_extend (hbrace ▸ rfl) this _
  have hlead : (cells (k.source ms)).take ((cells (k.source ms)).length
      - (k.occurrence ms).rest.length + 1) = cells k.front := by
    rw [hsource, ClassFrame.occurrence, take_through, hfront]
  obtain ⟨c, hc, hfunctions⟩ : ∃ c, k.connector? package moduleName ms = some c ∧
      c.functions = functionsOf (cells k.front) (k.body ms) := by
    rw [ClassFrame.connector?, Connector.ofOccurrence?, if_pos ⟨hk.isTop, hk.isConnector⟩, hbody,
      Option.map_some]
    exact ⟨_, rfl, by simp only [hlead]⟩
  refine ⟨c, hc, List.mem_filterMap.2 ⟨k.occurrence ms, ?_, ?_⟩, hfunctions⟩
  · rwa [String.toList_ofList]
  · rwa [String.toList_ofList]

/-- The functions of a class are those of the classes with one of its members each, as far as they are
called alike; each is called `init` or is remote or a resource; and their headers stand in one member,
outside of its brackets and its initialiser. -/
theorem functions_of_members {ms : List (List Char)} (hms : ∀ m ∈ ms, IsMember m) :
    ∃ c cs, k.connector? package moduleName ms = some c ∧
      c ∈ connectorsOfSource package moduleName .detailed (String.ofList (k.source ms)) ∧
      List.Forall₂ (fun m c => k.connector? package moduleName [m] = some c ∧
        c ∈ connectorsOfSource package moduleName .detailed (String.ofList (k.source [m]))) ms cs ∧
      c.functions.map ConnectorFunction.signature
        = cs.flatMap (fun c => c.functions.map ConnectorFunction.signature) ∧
      (∀ f ∈ c.functions, f.name = "init" ∨ "remote" ∈ f.qualifiers ∨ "resource" ∈ f.qualifiers) ∧
      c.functions = (occurrences MethodHeader.read? (k.body ms)).filterMap
        (ConnectorFunction.ofOccurrence? (cells k.front)) ∧
      ∀ o ∈ occurrences MethodHeader.read? (k.body ms),
        (ConnectorFunction.ofOccurrence? (cells k.front) o).isSome = true →
        ∃ pre m post u r, ms = pre ++ m :: post ∧
          o.before = Scan.inLine.cells pre.flatten ++ u ∧
          ⟨u, o.header, r⟩ ∈ occurrences MethodHeader.read? (Scan.inLine.cells m) ∧
          StandsOutside m u := by
  obtain ⟨c, hc, hmem, hfunctions⟩ := exists_connector_of_members hk package moduleName hms
  have halone : ∀ m ∈ ms, ∃ c, (k.connector? package moduleName [m] = some c ∧
      c ∈ connectorsOfSource package moduleName .detailed (String.ofList (k.source [m]))) ∧
      c.functions.map ConnectorFunction.signature
        = (functionsOf [] (Scan.inLine.cells m)).map ConnectorFunction.signature := by
    intro m hm
    have hm : ∀ m' ∈ [m], IsMember m' := List.forall_mem_singleton.2 (hms m hm)
    obtain ⟨c, hc, hmem, hfunctions⟩ := exists_connector_of_members hk package moduleName hm
    refine ⟨c, ⟨hc, hmem⟩, ?_⟩
    rw [hfunctions, ClassFrame.body, signatures_members hm hk.remainder, List.flatMap_singleton]
  obtain ⟨cs, hcs, hsignatures⟩ := exists_forall₂_flatMap halone
  refine ⟨c, cs, hc, hmem, hcs, ?_, fun f hf => ?_, hfunctions, fun o ho hreported => ?_⟩
  · rw [hfunctions, ClassFrame.body, signatures_members hms hk.remainder, hsignatures]
  · rw [hfunctions] at hf
    obtain ⟨o, -, hf⟩ := List.mem_filterMap.1 hf
    obtain ⟨-, hcallable, hname, hqualifiers⟩ := callable_of_ofOccurrence? hf
    simpa [MethodHeader.isCallable, hname, hqualifiers, or_assoc] using hcallable
  · obtain ⟨f, hf⟩ := Option.isSome_iff_exists.1 hreported
    obtain ⟨htop, hcallable, -⟩ := callable_of_ofOccurrence? hf
    obtain ⟨pre, m, post, u, r, hsplit, hbefore, hu, hnested⟩ :=
      exists_member hms hk.remainder ho htop
    exact ⟨pre, m, post, u, r, hsplit, hbefore, hu, standsOutside_of_isCallable hu hnested hcallable⟩

end

/-- Functions are nested in an initialiser, in an object, in a body and in the type of a parameter, and
braces stand in documentation, in a string and in a comment. -/
theorem functions_of_members_nested :
    let k : ClassFrame := ⟨"public client class A \x7b".toList, "\n// \x7d\n".toList, [], [],
      ⟨["public", "client"], "A"⟩, ⟨'\x7b', true⟩⟩
    let ms := ["\n*B;".toList, "\nfunction (int) f = function (int x) => x;".toList,
      "\nobject \x7b\x7d o = object \x7bremote function g() \x7b\x7d\x7d;".toList,
      "\n# Uses \x7b\nfunction init(int x = 1) \x7bfunction () h = init;\x7d".toList,
      "\nresource function get a/[int b](string s = \"\x7d\") returns int \x7b\x7d".toList,
      " remote function send(function (int) f) = external;".toList]
    ∃ c cs, k.connector? ⟨"org", "pack", "1.0.0"⟩ "pack" ms = some c ∧
      List.Forall₂ (fun m c => k.connector? ⟨"org", "pack", "1.0.0"⟩ "pack" [m] = some c) ms cs ∧
      c.functions.map ConnectorFunction.signature
        = cs.flatMap (fun c => c.functions.map ConnectorFunction.signature) ∧
      c.functions.map (fun f => (f.name, f.resourcePath))
        = [("init", none), ("get", some "a/[int b]"), ("send", none)] := by
  intro k ms
  have hfound : (occurrences ClassHeader.read? (cells k.front)).map
      (fun o => (o.before, o.header, o.rest)) = [([], k.header, [k.brace])] := by decide +kernel
  have hk : k.IsWritten := by
    refine ⟨?_, by decide +kernel, by decide +kernel, by decide +kernel⟩
    obtain ⟨⟨before, header, rest⟩, ho, he⟩ :=
      List.mem_map.1 (hfound ▸ List.mem_singleton_self ([], k.header, [k.brace]))
    simp only [Prod.mk.injEq] at he
    obtain ⟨rfl, rfl, rfl⟩ := he
    exact ho
  have hms : ∀ m ∈ ms, IsMember m := by decide +kernel
  obtain ⟨c, cs, hc, -, hcs, hsignatures, -⟩ :=
    functions_of_members hk ⟨"org", "pack", "1.0.0"⟩ "pack" hms
  refine ⟨c, cs, hc, hcs.imp fun _ _ h => h.1, hsignatures, ?_⟩
  have hnames : (k.connector? ⟨"org", "pack", "1.0.0"⟩ "pack" ms).map
      (fun c => c.functions.map fun f => (f.name, f.resourcePath))
        = some [("init", none), ("get", some "a/[int b]"), ("send", none)] := by decide +kernel
  rw [hc] at hnames
  exact Option.some_inj.1 hnames

end ConnectorCatalog
