import ConnectorCatalog.Proofs.ClientMethod
import ConnectorCatalog.Proofs.Offset.ReturnType
import ConnectorCatalog.Proofs.Pieces
import ConnectorCatalog.Proofs.Segment
import ConnectorCatalog.Proofs.Trim

/-!
# Return types

A type is made of names and marks, of brackets with arguments in them, and of records and objects with
their braces (`IsType`). The walk over a method's return type passes each of these as a whole
(`typeCells_of_isType`) and ends at the body, the semicolon or the equals sign behind it, so the type
is what is written, except where a body follows a name that ends in `record` or `object`
(`returnType_written`). Such a body is read as the braces of the type (`body_read_as_record`).
-/

namespace ConnectorCatalog

/-- A brace as it is shown, and a blank for any other character. -/
def Cell.brace (x : Cell) : Char := if x.shown = '\x7b' ∨ x.shown = '\x7d' then x.shown else ' '

/-- The signs that nest a type or may end it. -/
def typeSigns : List Char := ['\x7b', '\x7d', '(', ')', '[', ']', '<', '>', ';', '=']

/-- The text of a type. Brackets nest inside of brackets; of what stands in the braces of a record or
an object outside of them, only the braces need to be in order. -/
inductive IsType : List Cell → Prop
  | done : IsType []
  /-- Letters, marks and blanks. -/
  | letters {w s : List Cell} (hw : ∀ x ∈ w, x.shown ∉ typeSigns) (hs : IsType s) : IsType (w ++ s)
  /-- Arguments, a member list or a dimension. -/
  | brackets {o c : Cell} {arguments s : List Cell} (ho : o.shown ∈ ['(', '[', '<'])
      (hc : typeClosing? o.shown = some c.shown) (harguments : nested Cell.shown [] arguments = true)
      (hs : IsType s) : IsType (o :: (arguments ++ c :: s))
  /-- A record or an object. -/
  | braces {word b body s : List Cell} {o c : Cell}
      (hword : word.map Cell.shown ∈ ["record".toList, "object".toList])
      (hb : ∀ x ∈ b, x.isBlankCode = true) (ho : o.shown = '\x7b') (hc : c.shown = '\x7d')
      (hbody : wellNested Cell.brace body = true) (hs : IsType s) :
      IsType (word ++ (b ++ o :: (body ++ c :: s)))

/-- A text that ends in `record` or `object`, blanks apart: as a word, or as the end of a longer
one. -/
def AwaitsBraces (s : List Cell) : Prop :=
  ∃ w ∈ ["record", "object"], w.toList <:+ trimEnd (s.map Cell.shown)

section Braces

/-- Braces are counted alike if all else is left out. -/
theorem closeFrom_brace (depth : Nat) (s : List Cell) :
    closeFrom Cell.shown '\x7b' '\x7d' depth s = closeFrom Cell.brace '\x7b' '\x7d' depth s := by
  induction s generalizing depth with
  | nil => rfl
  | cons x s ih =>
    have hopening : x.brace = '\x7b' ↔ x.shown = '\x7b' := by
      unfold Cell.brace
      split_ifs with h
      · rfl
      · exact ⟨fun h => absurd h (by decide), fun hx => absurd (.inl hx) h⟩
    have hclosing : x.brace = '\x7d' ↔ x.shown = '\x7d' := by
      unfold Cell.brace
      split_ifs with h
      · rfl
      · exact ⟨fun h => absurd h (by decide), fun hx => absurd (.inr hx) h⟩
    simp only [closeFrom, hopening, hclosing, ih]

/-- The partner of a brace stands behind a text whose braces are in order. -/
theorem closeIndex?_of_braces {o c : Cell} {body : List Cell} (ho : o.shown = '\x7b')
    (hc : c.shown = '\x7d') (hbody : wellNested Cell.brace body = true) (r : List Cell) :
    closeIndex? Cell.shown (o :: (body ++ c :: r)) = some (body ++ [c]).length := by
  have hpair : closing? '\x7b' = some '\x7d' := rfl
  have hclose : closeFrom Cell.brace '\x7b' '\x7d' 1 (c :: r) = some 0 := by
    rw [← closeFrom_brace, closeFrom, hc, if_neg (by decide), if_pos rfl, if_pos (Nat.le_refl 1)]
  rw [closeIndex?, ho, hpair]
  simp only []
  rw [closeFrom_brace, neutral_of_wellNested hbody hpair Nat.one_pos, hclose, Option.map_some,
    Option.map_some, List.length_append]
  rfl

end Braces

section Walk

variable {type s : List Cell} {depth : Int}

theorem typeStep_of_notMem {c : Char} (hc : c ∉ typeSigns) : typeStep c = 0 ∧ ¬ MayEndType c := by
  simp only [typeSigns, List.mem_cons, List.not_mem_nil, or_false, not_or] at hc
  simp [typeStep, MayEndType, hc]

/-- Letters, marks and blanks are passed. -/
theorem typeCells_pass (hs : ∀ x ∈ s, x.shown ∉ typeSigns) (seen r : List Cell) :
    typeCells seen 0 0 (s ++ r) = typeCells (s.reverse ++ seen) 0 0 r := by
  induction s generalizing seen with
  | nil => rfl
  | cons x s ih =>
    obtain ⟨hstep, hend⟩ := typeStep_of_notMem (hs x (List.mem_cons_self ..))
    rw [List.cons_append, typeCells_move fun h => hend h.2, hstep, Int.add_zero,
      ih fun y hy => hs y (List.mem_cons_of_mem _ hy), List.reverse_cons, List.append_assoc]
    rfl

/-- How deep a type is nested, given the closings that are still to come. -/
def depthOf (pending : List Char) : Int := (pending.filter (· != '\x7d')).length

theorem depthOf_cons (c : Char) (pending : List Char) :
    depthOf (c :: pending) = depthOf pending + if c = '\x7d' then 0 else 1 := by
  unfold depthOf
  by_cases hc : c = '\x7d'
  · rw [List.filter_cons_of_neg (by simpa using hc), if_pos hc, Int.add_zero]
  · rw [List.filter_cons_of_pos (by simpa using hc), if_neg hc, List.length_cons]
    rfl

theorem typeStep_of_typeClosing? {o c : Char} (h : typeClosing? o = some c) :
    typeStep o = if c = '\x7d' then 0 else 1 := by
  unfold typeClosing? at h
  split_ifs at h with ho
  · cases h
    rw [ho]
    rfl
  · obtain ⟨rfl, rfl⟩ | ⟨rfl, rfl⟩ | ⟨rfl, rfl⟩ := closing?_cases h <;> rfl

theorem typeStep_of_isTypeClosing {c : Char} (h : isTypeClosing c = true) :
    typeStep c = -if c = '\x7d' then 0 else 1 := by
  simp only [isTypeClosing, isClosing, Bool.or_eq_true, beq_iff_eq] at h
  obtain rfl | (rfl | rfl) | rfl := h <;> rfl

theorem typeStep_of_neither {c : Char} (ho : typeClosing? c = none)
    (hc : isTypeClosing c = false) : typeStep c = 0 := by
  have hstep := typeNestingStep_of_neither ho hc
  unfold typeNestingStep nestingStep at hstep
  unfold typeStep
  split_ifs at hstep ⊢ <;> simp_all

/-- Inside of brackets, a text that closes those that are open is passed, whatever braces, semicolons
and equals signs it has. -/
theorem typeCells_of_nestedFrom (hdepth : 0 < depth) : ∀ {s : List Cell} {pending : List Char},
    nestedFrom Cell.shown [] pending s = true → ∀ seen r,
    typeCells seen (depth + depthOf pending) 0 (s ++ r)
      = typeCells (s.reverse ++ seen) depth 0 r
  | [], pending, h, seen, r => by
    rw [nestedFrom, List.isEmpty_iff] at h
    subst h
    rw [depthOf, List.filter_nil, List.length_nil, Int.natCast_zero, Int.add_zero]
    rfl
  | x :: s, pending, h, seen, r => by
    have hinside : ¬ (depth + depthOf pending = 0 ∧ MayEndType x.shown) := by
      unfold depthOf
      omega
    rw [List.cons_append, typeCells_move hinside, List.reverse_cons, List.append_assoc,
      List.singleton_append]
    obtain ⟨c, ho, hs⟩ | ⟨rest, hc, rfl, hs⟩ | ⟨ho, hc, -, hs⟩ := nestedFrom_cons h
    · rw [← typeCells_of_nestedFrom hdepth hs, typeStep_of_typeClosing? ho, depthOf_cons,
        Int.add_assoc]
    · rw [← typeCells_of_nestedFrom hdepth hs, typeStep_of_isTypeClosing hc, depthOf_cons]
      congr 1
      omega
    · rw [← typeCells_of_nestedFrom hdepth hs, typeStep_of_neither ho hc, Int.add_zero]

theorem typeStep_of_brackets {o c : Char} (ho : o ∈ ['(', '[', '<'])
    (hc : typeClosing? o = some c) : typeStep o = 1 ∧ typeStep c = -1 ∧ ¬ MayEndType o := by
  unfold MayEndType
  simp only [List.mem_cons, List.not_mem_nil, or_false] at ho
  obtain rfl | rfl | rfl := ho <;> cases hc <;> decide

/-- Brackets and what they hold are passed. -/
theorem typeCells_brackets {o c : Cell} {arguments : List Cell} (ho : o.shown ∈ ['(', '[', '<'])
    (hc : typeClosing? o.shown = some c.shown) (harguments : nested Cell.shown [] arguments = true)
    (seen r : List Cell) :
    typeCells seen 0 0 (o :: (arguments ++ c :: r))
      = typeCells (c :: (arguments.reverse ++ o :: seen)) 0 0 r := by
  obtain ⟨hopening, hclosing, hend⟩ := typeStep_of_brackets ho hc
  have hinner := typeCells_of_nestedFrom Int.one_pos harguments (o :: seen) (c :: r)
  rw [depthOf, List.filter_nil, List.length_nil, Int.natCast_zero, Int.add_zero] at hinner
  rw [typeCells_move fun h => hend h.2, hopening, Int.zero_add, hinner,
    typeCells_move fun h => absurd h.1 (by decide), hclosing]
  rfl

theorem endsIn_iff {w : String} {s : List Cell} :
    endsIn w s.reverse = true ↔ w.toList <:+ trimEnd (s.map Cell.shown) := by
  have hdrop : ∀ s : List Cell,
      (s.map Cell.shown).dropWhile isBlank = (s.dropWhile Cell.isBlankCode).map Cell.shown := by
    intro s
    rw [List.dropWhile_map]
    rfl
  rw [endsIn, beq_iff_eq, trimEnd, dropEndWhile, ← List.map_reverse, hdrop, ← List.reverse_prefix,
    List.reverse_reverse, List.prefix_iff_eq_take, List.length_reverse, eq_comm]
  rfl

theorem awaitsBraces_iff {s : List Cell} :
    AwaitsBraces s ↔ (endsIn "record" s.reverse || endsIn "object" s.reverse) = true := by
  rw [AwaitsBraces, Bool.or_eq_true, endsIn_iff, endsIn_iff]
  simp

instance (s : List Cell) : Decidable (AwaitsBraces s) := decidable_of_iff _ awaitsBraces_iff.symm

/-- Braces are awaited behind `record` or `object` and blanks, whatever stands before that. -/
theorem awaitsBraces_append {word b : List Cell}
    (hword : word.map Cell.shown ∈ ["record".toList, "object".toList])
    (hb : ∀ x ∈ b, x.isBlankCode = true) (before : List Cell) :
    AwaitsBraces (before ++ (word ++ b)) := by
  have hblank : ∀ c ∈ b.map Cell.shown, isBlank c = true := by
    intro c hc
    obtain ⟨x, hx, rfl⟩ := List.mem_map.1 hc
    exact hb x hx
  have hends : ∀ w : String, word.map Cell.shown = w.toList → (∀ c ∈ w.toList, isBlank c = false) →
      w.toList ≠ [] → w.toList <:+ trimEnd ((before ++ (word ++ b)).map Cell.shown) := by
    intro w hw hnot hne
    have htrim := trimEnd_of_not_blank hnot
    rw [List.map_append, List.map_append, hw, ← List.append_assoc, trimEnd_blanks _ hblank,
      trimEnd_append _ (by rwa [htrim]), htrim]
    exact List.suffix_append ..
  simp only [List.mem_cons, List.not_mem_nil, or_false] at hword
  rcases hword with hw | hw
  · exact ⟨"record", by simp, hends _ hw (by simp [isBlank]) (by decide)⟩
  · exact ⟨"object", by simp, hends _ hw (by simp [isBlank]) (by decide)⟩

/-- A brace begins the body, or braces of the type that have to be closed. -/
theorem typeCells_at_brace {o : Cell} (ho : o.shown = '\x7b') (before r : List Cell) :
    typeCells before.reverse 0 0 (o :: r) = if AwaitsBraces before then
      (closeIndex? Cell.shown (o :: r)).bind fun close => typeCells (o :: before.reverse) 0 close r
    else some before := by
  rw [typeCells_brace ho, List.reverse_reverse]
  simp only [awaitsBraces_iff]
  split
  · cases closeIndex? Cell.shown (o :: r) <;> rfl
  · rfl

/-- A type ends at a sign that may end it, unless that is a brace that it awaits. -/
theorem typeCells_at_end {d : Cell} {before : List Cell} (hd : d.shown ∈ ['\x7b', ';', '='])
    (h : ¬ (d.shown = '\x7b' ∧ AwaitsBraces before)) (r : List Cell) :
    typeCells before.reverse 0 0 (d :: r) = some before := by
  rw [List.mem_cons] at hd
  rcases hd with hd | hd
  · rw [typeCells_at_brace hd, if_neg fun hbefore => h ⟨hd, hbefore⟩]
  · rw [typeCells_stop (by simpa using hd), List.reverse_reverse]

/-- The braces of a record or an object are passed. -/
theorem typeCells_braces {word b body : List Cell} {o c : Cell}
    (hword : word.map Cell.shown ∈ ["record".toList, "object".toList])
    (hb : ∀ x ∈ b, x.isBlankCode = true) (ho : o.shown = '\x7b') (hc : c.shown = '\x7d')
    (hbody : wellNested Cell.brace body = true) (before r : List Cell) :
    typeCells before.reverse 0 0 (word ++ (b ++ o :: (body ++ c :: r)))
      = typeCells (before ++ (word ++ (b ++ o :: (body ++ [c])))).reverse 0 0 r := by
  have hpass : ∀ x ∈ word ++ b, x.shown ∉ typeSigns := by
    refine List.forall_mem_append.2 ⟨fun x hx => ?_, fun x hx => ?_⟩
    · have hletters : ∀ w ∈ ["record".toList, "object".toList], ∀ c ∈ w, c ∉ typeSigns := by
        simp [typeSigns]
      exact hletters _ hword _ (List.mem_map_of_mem hx)
    · exact notMem_of_isBlank (hb x hx) (by decide)
  have hskip := typeCells_skip (body ++ [c]) (o :: (before ++ (word ++ b)).reverse) r 0
  rw [List.append_assoc, List.singleton_append] at hskip
  rw [← List.append_assoc, typeCells_pass hpass, ← List.reverse_append, typeCells_at_brace ho,
    if_pos (awaitsBraces_append hword hb before), closeIndex?_of_braces ho hc hbody,
    Option.bind_some, hskip]
  simp

/-- A type is passed as a whole. -/
theorem typeCells_of_isType {type : List Cell} (h : IsType type) (before r : List Cell) :
    typeCells before.reverse 0 0 (type ++ r) = typeCells (before ++ type).reverse 0 0 r := by
  induction h generalizing before with
  | done => rw [List.append_nil]; rfl
  | @letters w s hw hs ih =>
    have hone := typeCells_pass hw before.reverse (s ++ r)
    rw [← List.reverse_append, ih] at hone
    simpa using hone
  | @brackets o c arguments s ho hc harguments hs ih =>
    have hone := typeCells_brackets ho hc harguments before.reverse (s ++ r)
    have hsplit : c :: (arguments.reverse ++ o :: before.reverse)
        = (before ++ o :: (arguments ++ [c])).reverse := by simp
    rw [hsplit, ih] at hone
    simpa using hone
  | @braces word b body s o c hword hb ho hc hbody hs ih =>
    have hone := typeCells_braces hword hb ho hc hbody before (s ++ r)
    rw [ih] at hone
    simpa using hone

end Walk

section Read

/-- Trimming takes away blanks only. -/
theorem count_trim {c : Char} (hc : isBlank c = false) (s : List Char) :
    (trim s).count c = s.count c := by
  have hdrop : ∀ s : List Char, (s.dropWhile isBlank).count c = s.count c := by
    intro s
    have hnone : (s.takeWhile isBlank).count c = 0 := by
      rw [List.count_eq_zero]
      intro h
      rw [List.mem_takeWhile_imp h] at hc
      cases hc
    conv_rhs => rw [← List.takeWhile_append_dropWhile (p := isBlank) (l := s), List.count_append,
      hnone, Nat.zero_add]
  rw [trim, trimWhile, dropEndWhile, List.count_reverse, hdrop, List.count_reverse, hdrop]

/-- With a brace and more behind it a type is another one. -/
theorem trim_ne_of_brace {o : Cell} (ho : o.shown = '\x7b') (type u : List Cell) :
    trim (chars (type ++ o :: u)) ≠ trim (chars type) := by
  have hbrace : isBlank '\x7b' = false := by decide
  have hchar : o.char = '\x7b' := by
    unfold Cell.shown at ho
    split_ifs at ho
    · exact ho
    · cases ho
  intro h
  have hcount := congrArg (List.count '\x7b') h
  rw [count_trim hbrace, count_trim hbrace, Offset.chars_append, chars_cons, hchar,
    List.count_append, List.count_cons_self] at hcount
  omega

/-- What is read behind `returns`. -/
theorem returnTypeOf_returns {b keyword : List Cell} (hb : ∀ x ∈ b, x.isBlankCode = true)
    (hkeyword : keyword.map Cell.shown = "returns".toList) (r : List Cell) :
    returnTypeOf (b ++ (keyword ++ r)) = (typeCells [] 0 0 r).bind fun type =>
      if trim (chars type) = [] then none else some (String.ofList (trim (chars type))) := by
  have hfirst : afterBlanks (keyword ++ r) = keyword ++ r := by
    obtain ⟨x, k, rfl, hx, -⟩ := List.map_eq_cons_iff.1 hkeyword
    exact afterBlanks_cons_of_not_blank (by rw [Cell.isBlankCode, hx]; decide) (k ++ r)
  rw [returnTypeOf, afterBlanks_append hb, hfirst, keyword?_append_of_shown hkeyword]
  simp only [List.isEmpty_iff]
  cases typeCells [] 0 0 r <;> rfl

end Read

/-- The type behind `returns` up to a body, a semicolon or an equals sign is the type of the function,
if and only if that is no body behind a name that ends in `record` or `object`. -/
theorem returnType_written (package : PackageName) (moduleName : String) {content : String}
    {m : ClientMethod} (hm : m ∈ methods (cells content.toList))
    {list b keyword type behind : List Cell} {d : Cell}
    (hlist : enclosed? Cell.shown m.rest = some (list, b ++ (keyword ++ (type ++ d :: behind))))
    (hb : ∀ x ∈ b, x.isBlankCode = true) (hkeyword : keyword.map Cell.shown = "returns".toList)
    (htype : IsType type) (hne : trim (chars type) ≠ []) (hd : d.shown ∈ ['\x7b', ';', '=']) :
    ∃ f, m.function? = some f ∧
      (∃ c ∈ connectorsOfSource package moduleName .detailed content,
        c.withoutFunctions = m.connector package moduleName ∧ f ∈ c.functions) ∧
      (f.returnType = some ⟨String.ofList (trim (chars type)), m.documentation.returns⟩ ↔
        ¬ (d.shown = '\x7b' ∧ AwaitsBraces type)) := by
  have hf := ClientMethod.function?_of_enclosed? hlist
  refine ⟨_, hf, exists_connector hm hf, ?_⟩
  have hwalk := typeCells_of_isType htype [] (d :: behind)
  rw [List.reverse_nil, List.nil_append] at hwalk
  rw [ClientMethod.function, returnTypeOf_returns hb hkeyword, hwalk]
  by_cases hbraces : d.shown = '\x7b' ∧ AwaitsBraces type
  · rw [typeCells_at_brace hbraces.1, if_pos hbraces.2]
    refine iff_of_false (fun h => ?_) fun h => h hbraces
    obtain ⟨name, hname, hreturn⟩ := Option.map_eq_some_iff.1 h
    obtain ⟨t, ht, hname⟩ := Option.bind_eq_some_iff.1 hname
    obtain ⟨close, -, ht⟩ := Option.bind_eq_some_iff.1 ht
    obtain ⟨u, _, -, rfl⟩ := typeCells_eq_some ht
    split_ifs at hname
    cases hname
    rw [ReturnType.mk.injEq, String.ofList_inj, List.reverse_cons, List.reverse_reverse,
      List.append_assoc] at hreturn
    exact trim_ne_of_brace hbraces.1 type u hreturn.1
  · rw [typeCells_at_end hd hbraces]
    refine iff_of_true ?_ hbraces
    simp only [Option.bind_some, if_neg hne, Option.map_some]

/-- A list of records or a map of objects, with a brace in a literal and signs at which a type might
end inside of brackets. -/
theorem returnType_written_records :
    let type := " record \x7b| string s = \"\x7d\"; |\x7d[]|map<object \x7b int n; \x7d>? "
    let content := "public client class A \x7b\n    remote function f() returns" ++ type
      ++ "\x7b\n    \x7d\n\x7d\n"
    ∃ m ∈ methods (cells content.toList), ∃ f, m.function? = some f ∧
      (∃ c ∈ connectorsOfSource ⟨"org", "pack", "1.0.0"⟩ "pack" .detailed content,
        c.withoutFunctions = m.connector ⟨"org", "pack", "1.0.0"⟩ "pack" ∧ f ∈ c.functions) ∧
      f.returnType = some
        ⟨"record \x7b| string s = \"\x7d\"; |\x7d[]|map<object \x7b int n; \x7d>?", none⟩ := by
  intro type content
  have hmethods : (methods (cells content.toList)).map (fun m => (m.rest, m.documentation.returns))
      = [(plain "()".toList ++ (plain " ".toList ++ (plain "returns".toList
        ++ (Scan.inLine.cells type.toList ++ ⟨'\x7b', true⟩ :: plain "\n    \x7d\n".toList))),
        none)] := by decide +kernel
  obtain ⟨m, hm, hpair⟩ := List.map_eq_singleton_iff.1 hmethods
  obtain ⟨hrest, hdocs⟩ := Prod.mk.inj hpair
  have hmem : m ∈ methods (cells content.toList) := by rw [hm]; exact List.mem_singleton_self m
  have htype : IsType (Scan.inLine.cells type.toList) := by
    let optional := plain "? ".toList ++ []
    let mapped := plain "|map".toList ++ (⟨'<', true⟩ ::
      (plain "object \x7b int n; \x7d".toList ++ ⟨'>', true⟩ :: optional))
    let listed := ⟨'[', true⟩ :: ([] ++ ⟨']', true⟩ :: mapped)
    let recorded := plain " ".toList ++ (plain "record".toList ++ (plain " ".toList ++ ⟨'\x7b', true⟩ ::
      (Scan.inLine.cells "| string s = \"\x7d\"; |".toList ++ ⟨'\x7d', true⟩ :: listed)))
    have hoptional : IsType optional := .letters (by decide) .done
    have hmapped : IsType mapped :=
      .letters (by decide) (.brackets (by decide) (by decide) (by decide) hoptional)
    have hlisted : IsType listed := .brackets (by decide) (by decide) (by decide) hmapped
    have hrecorded : IsType recorded := .letters (by decide)
      (.braces (by decide) (by decide) (by decide) (by decide) (by decide) hlisted)
    have htype : recorded = Scan.inLine.cells type.toList := by decide +kernel
    exact htype ▸ hrecorded
  have hlist : enclosed? Cell.shown m.rest = some ([], plain " ".toList ++ (plain "returns".toList
      ++ (Scan.inLine.cells type.toList ++ ⟨'\x7b', true⟩ :: plain "\n    \x7d\n".toList))) := by
    rw [hrest]
    decide +kernel
  obtain ⟨f, hf, hc, hreturn⟩ := returnType_written ⟨"org", "pack", "1.0.0"⟩ "pack" hmem hlist
    (by decide) (by decide) htype (by decide +kernel) (by decide)
  have hname : String.ofList (trim (chars (Scan.inLine.cells type.toList)))
      = "record \x7b| string s = \"\x7d\"; |\x7d[]|map<object \x7b int n; \x7d>?" := by
    decide +kernel
  rw [hdocs, hname] at hreturn
  exact ⟨m, hmem, f, hf, hc, hreturn.2 (by decide +kernel)⟩

/-- A body behind a name that ends in `record` is read as the braces of a type, behind another name
it is not. -/
theorem body_read_as_record :
    let source := fun name => "public client class A \x7b\n    remote function f() returns " ++ name
      ++ " \x7b\n        return self.x;\n    \x7d\n\x7d\n"
    let types := fun name =>
      (connectorsOfSource ⟨"org", "pack", "1.0.0"⟩ "pack" .detailed (source name)).map fun c =>
        c.functions.map fun f => f.returnType.map ReturnType.typeName
    types "Trackrecords" = [[some "Trackrecords"]] ∧
      types "Trackrecord" = [[some "Trackrecord \x7b\n        return self.x;\n    \x7d"]] := by
  decide +kernel

end ConnectorCatalog
