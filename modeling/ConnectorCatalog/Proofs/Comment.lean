import ConnectorCatalog.Proofs.Leading.Comment
import ConnectorCatalog.Proofs.Parameters.Comment

/-!
# Connectors of a source with a comment

A line comment shows as blanks, so at a place where nothing is cut out of the source (`FreePlace`) it
moves no cut. Up to the class of the method the source is read as before
(`ofOccurrence?_extend_congr`), and the class has the same functions (`functionsOf_blanks`). A
definition behind the comment is read as before too, but the walk up to what stands above it may come
through the line of the comment, which is two lines then (`Leading.Unmarked`). Together this gives
the same connectors with the same functions (`connectorsOfSource_comment`). A comment behind the name
of a parameter takes the place of the name (`comment_becomes_name`).
-/

namespace ConnectorCatalog

section Classes

variable {package : PackageName} {moduleName : String} {detail : Detail}

theorem take_of_rest {s a r rest : List Cell} {c : Cell} (hs : s = a ++ c :: r)
    (hrest : rest = c :: r) : s.take (s.length - rest.length + 1) = a ++ [c] := by
  subst hs hrest
  exact take_through a r c

/-- A connector depends on its header, on what stands above it and on the functions of its body. -/
theorem Connector.ofOccurrence?_congr {source source' lead lead' : List Cell}
    {o o' : Occurrence ClassHeader} (hheader : o.header = o'.header)
    (hnesting : nesting Cell.shown o.before = nesting Cell.shown o'.before)
    (hlead : source.take (source.length - o.rest.length + 1) = lead)
    (hlead' : source'.take (source'.length - o'.rest.length + 1) = lead')
    (h : nesting Cell.shown o.before = 0 → Leading.ofBefore o.before = Leading.ofBefore o'.before ∧
      Option.Rel (fun p p' => functionsOf lead p.1 = functionsOf lead' p'.1)
        (enclosed? Cell.shown o.rest) (enclosed? Cell.shown o'.rest)) :
    ofOccurrence? package moduleName detail source o
      = ofOccurrence? package moduleName detail source' o' := by
  unfold ofOccurrence?
  rw [← hheader, ← hnesting]
  split
  · rename_i htop
    obtain ⟨hleading, hbody⟩ := h htop.1
    simp only [hlead, hlead', hleading]
    generalize enclosed? Cell.shown o.rest = p at hbody ⊢
    generalize enclosed? Cell.shown o'.rest = p' at hbody ⊢
    cases hbody with
    | none => rfl
    | @some p p' hp =>
      cases detail with
      | summary => rfl
      | detailed => simp only [Option.map_some, hp]
  · rfl

theorem Connector.ofOccurrence?_eq_none {source : List Cell} {o : Occurrence ClassHeader}
    (h : nesting Cell.shown o.before ≠ 0) :
    ofOccurrence? package moduleName detail source o = none :=
  if_neg fun htop => h htop.1

section Body

variable {above hdr body after : List Cell} {brace close : Cell} {header : ClassHeader}
  (hclass : ⟨above, header, [brace]⟩ ∈ occurrences ClassHeader.read? (above ++ (hdr ++ [brace])))
  (hbrace : brace.shown = '\x7b') (hclose : close.shown = '\x7d')
  (htop : nesting Cell.shown above = 0)
  (hnested : wellNested Cell.shown (above ++ (hdr ++ brace :: (body ++ close :: after))) = true)
  (henclosed : enclosed? Cell.shown (brace :: (body ++ close :: after)) = some (body, after))

include hbrace hclose hnested henclosed

/-- No connector begins in the body of a class. -/
theorem filterMap_classes_append (source : List Cell) :
    (occurrences ClassHeader.read? (above ++ (hdr ++ brace :: (body ++ close :: after)))).filterMap
        (Connector.ofOccurrence? package moduleName detail source)
      = (occurrences ClassHeader.read? (above ++ (hdr ++ [brace]))).filterMap
          (Connector.ofOccurrence? package moduleName detail source
            ∘ Occurrence.extend (body ++ close :: after))
        ++ (occurrences ClassHeader.read? after).filterMap
          (Connector.ofOccurrence? package moduleName detail source
            ∘ Occurrence.shift (above ++ (hdr ++ brace :: (body ++ [close])))) := by
  have hopen : isStop brace.shown = true := by rw [hbrace]; rfl
  have hstop : isStop close.shown = true := by rw [hclose]; rfl
  have hnone : ((occurrences ClassHeader.read? (body ++ [close])).filterMap fun o =>
      Connector.ofOccurrence? package moduleName detail source
        ((o.extend after).shift (above ++ (hdr ++ [brace])))) = [] := by
    rw [List.filterMap_eq_nil_iff]
    intro o ho
    refine Connector.ofOccurrence?_eq_none ?_
    obtain ⟨p, b, r, hsplit, -⟩ := split_of_mem_occurrences ClassHeader.headerReader ho
    have hwhole : body ++ close :: after = o.before ++ (p ++ b :: r ++ after) := by
      rw [← List.append_assoc, ← hsplit]
      simp
    have hle : o.before.length ≤ body.length := by
      have := congrArg List.length hsplit
      simp only [List.length_append, List.length_cons, List.length_nil] at this
      omega
    rw [hwhole, ← List.append_assoc] at hnested
    rw [hwhole] at henclosed
    simpa [Occurrence.shift, Occurrence.extend] using
      nesting_ne_zero hnested (by rw [hbrace]; rfl) henclosed hle
  have hfirst := ClassHeader.stoppedReader.occurrences_append hopen (above ++ hdr)
    (body ++ close :: after)
  rw [ClassHeader.stoppedReader.occurrences_append hstop body after] at hfirst
  rw [← List.append_assoc, hfirst, List.filterMap_append, List.map_append, List.filterMap_append,
    List.filterMap_map, List.map_map, List.map_map, List.filterMap_map, List.filterMap_map]
  rw [List.append_assoc above hdr [brace]]
  refine congrArg (_ ++ ·) ?_
  refine (congrArg (· ++ _) hnone).trans ?_
  rw [List.nil_append]
  refine congrArg (List.filterMap · _) (funext fun o => ?_)
  simp [Occurrence.shift]

end Body

/-- The functions of a class body depend on what stands in front only as far as documentation goes. -/
theorem functionsOf_congr {lead lead' body : List Cell}
    (h : ∀ b, b <+: body → nesting Cell.shown b = 0 →
      (Leading.ofBefore (lead ++ b)).documentation = (Leading.ofBefore (lead' ++ b)).documentation) :
    functionsOf lead body = functionsOf lead' body := by
  refine List.filterMap_congr fun o ho => ?_
  obtain ⟨p, c, r, hbody, -⟩ := split_of_mem_occurrences MethodHeader.headerReader ho
  refine ConnectorFunction.ofOccurrence?_congr rfl rfl fun htop _ => ⟨h _ ⟨_, hbody.symm⟩ htop, ?_⟩
  cases enclosed? Cell.shown o.rest with
  | none => exact .none
  | some p => exact .some ⟨fun _ => rfl, rfl⟩

section Congr

variable {above hdr body body' after : List Cell} {brace close : Cell} {header : ClassHeader}
  (hclass : ⟨above, header, [brace]⟩ ∈ occurrences ClassHeader.read? (above ++ (hdr ++ [brace])))
  (hbrace : brace.shown = '\x7b') (hclose : close.shown = '\x7d')
  (htop : nesting Cell.shown above = 0)
  (hnested : wellNested Cell.shown (above ++ (hdr ++ brace :: (body ++ close :: after))) = true)
  (hnested' : wellNested Cell.shown (above ++ (hdr ++ brace :: (body' ++ close :: after))) = true)
  (henclosed : enclosed? Cell.shown (brace :: (body ++ close :: after)) = some (body, after))
  (henclosed' : enclosed? Cell.shown (brace :: (body' ++ close :: after)) = some (body', after))

include hclass htop hnested henclosed henclosed'

/-- The connectors up to a class are the same with another text in its body that has the same
functions. -/
theorem ofOccurrence?_extend_congr
    (hfunctions : functionsOf (above ++ hdr ++ [brace]) body
      = functionsOf (above ++ hdr ++ [brace]) body') {o : Occurrence ClassHeader}
    (ho : o ∈ occurrences ClassHeader.read? (above ++ (hdr ++ [brace]))) :
    Connector.ofOccurrence? package moduleName detail
        (above ++ (hdr ++ brace :: (body ++ close :: after))) (o.extend (body ++ close :: after))
      = Connector.ofOccurrence? package moduleName detail
        (above ++ (hdr ++ brace :: (body' ++ close :: after)))
        (o.extend (body' ++ close :: after)) := by
  by_cases hne : o = ⟨above, header, [brace]⟩
  · subst hne
    refine Connector.ofOccurrence?_congr rfl rfl
      (take_of_rest (a := above ++ hdr) (c := brace) (by simp) rfl)
      (take_of_rest (a := above ++ hdr) (c := brace) (by simp) rfl) fun _ => ⟨rfl, ?_⟩
    show Option.Rel _ (enclosed? Cell.shown (brace :: (body ++ close :: after)))
      (enclosed? Cell.shown (brace :: (body' ++ close :: after)))
    rw [henclosed, henclosed']
    exact .some hfunctions
  · obtain ⟨p, c, r, inner, rest, hbefore, hrest, hinner⟩ :=
      ClassHeader.stoppedReader.exists_enclosed? rfl hclass ho hne
        (wellNested_of_nesting hnested htop)
    have hsplit : ∀ body, (o.extend (body ++ close :: after)).rest
        = c :: (r ++ (hdr ++ brace :: (body ++ close :: after))) := by
      intro body
      simp [Occurrence.extend, hrest]
    have hwhole : ∀ t, above ++ t = o.before ++ p ++ c :: (r ++ t) := by
      intro t
      simp [hbefore]
    refine Connector.ofOccurrence?_congr rfl rfl (take_of_rest (hwhole _) (hsplit body))
      (take_of_rest (hwhole _) (hsplit body')) fun _ => ⟨rfl, ?_⟩
    have hopened : ∀ t, enclosed? Cell.shown (c :: (r ++ t)) = some (inner, rest ++ t) :=
      enclosed?_append hinner
    rw [hsplit, hsplit, hopened, hopened]
    exact .some rfl

omit hclass htop in
include hnested' hclose in
/-- The connectors behind a class are the same with another text in its body, if the definitions
behind it have the same above them. -/
theorem ofOccurrence?_shift_congr
    (hleading : ∀ b, b <+: after →
      nesting Cell.shown (above ++ (hdr ++ brace :: (body ++ close :: b))) = 0 →
      Leading.ofBefore (above ++ (hdr ++ brace :: (body ++ close :: b)))
        = Leading.ofBefore (above ++ (hdr ++ brace :: (body' ++ close :: b))))
    (hdocs : ∀ b, b <+: after → 0 ≤ Leading.unopened (close :: b) →
      (Leading.ofBefore (above ++ (hdr ++ brace :: (body ++ close :: b)))).documentation
        = (Leading.ofBefore (above ++ (hdr ++ brace :: (body' ++ close :: b)))).documentation)
    {o : Occurrence ClassHeader} (ho : o ∈ occurrences ClassHeader.read? after) :
    Connector.ofOccurrence? package moduleName detail
        (above ++ (hdr ++ brace :: (body ++ close :: after)))
        (o.shift (above ++ (hdr ++ brace :: (body ++ [close]))))
      = Connector.ofOccurrence? package moduleName detail
        (above ++ (hdr ++ brace :: (body' ++ close :: after)))
        (o.shift (above ++ (hdr ++ brace :: (body' ++ [close])))) := by
  obtain ⟨t, hafter, hheader⟩ :=
    (scanned_occurrencesFrom ClassHeader.headerReader [] _).exists_headerAt ho
  obtain ⟨-, hread⟩ := headerAt_eq_some.1 hheader
  obtain ⟨p, c, r, -, rfl, hrest, hc⟩ := ClassHeader.headerReader.rest hread
  have hafter : after = o.before ++ (p ++ c :: r) := hafter
  have hbefore : ∀ body, (o.shift (above ++ (hdr ++ brace :: (body ++ [close])))).before
      = above ++ (hdr ++ brace :: (body ++ close :: o.before)) := by
    intro body
    simp [Occurrence.shift]
  have hwhole : ∀ body, above ++ (hdr ++ brace :: (body ++ close :: after))
      = above ++ (hdr ++ brace :: (body ++ close :: (o.before ++ p))) ++ c :: r := by
    intro body
    simp [hafter]
  have hsame : nesting Cell.shown body = nesting Cell.shown body' := by
    rw [← List.append_assoc] at hnested hnested'
    rw [nesting_of_wellNested (wellNested_of_enclosed? hnested henclosed),
      nesting_of_wellNested (wellNested_of_enclosed? hnested' henclosed')]
  refine Connector.ofOccurrence?_congr rfl ?_ (take_of_rest (hwhole body) hrest)
    (take_of_rest (hwhole body') hrest) fun htop => ⟨?_, ?_⟩
  · simp only [hbefore, nesting_append, nesting, hsame]
  · rw [hbefore] at htop ⊢
    rw [hbefore]
    exact hleading _ ⟨_, hafter.symm⟩ htop
  · show Option.Rel _ (enclosed? Cell.shown o.rest) (enclosed? Cell.shown o.rest)
    cases hinner : enclosed? Cell.shown o.rest with
    | none => exact .none
    | some q =>
      refine .some (functionsOf_congr fun b hb hbtop => ?_)
      rw [hrest] at hinner
      have hopens : Leading.unopened b = 0 := by
        obtain ⟨t, ht⟩ := hb
        rw [hwhole] at hnested
        have := wellNested_of_enclosed? hnested hinner
        rw [← ht] at this
        exact Leading.unopened_of_wellNestedFrom (wellNested_of_nesting this hbtop)
      have hlead : 0 ≤ Leading.unopened o.before := by
        rw [hbefore] at htop
        have hsplit : above ++ (hdr ++ brace :: (body ++ close :: after))
            = above ++ (hdr ++ brace :: (body ++ close :: o.before)) ++ (p ++ c :: r) := by
          simp [hafter]
        rw [hsplit] at hnested
        exact Leading.unopened_nonneg (wellNested_of_nesting hnested htop)
          ⟨above ++ (hdr ++ brace :: (body ++ [close])), by simp⟩
      have := hdocs (o.before ++ (p ++ c :: b)) ?_ ?_
      · simpa using this
      · obtain ⟨d, e, hsplit, -⟩ := enclosed?_eq_some hinner
        obtain ⟨t, ht⟩ := hb
        obtain ⟨-, rfl⟩ := List.cons.inj hsplit
        rw [hafter, ← ht]
        exact ⟨t ++ e :: q.2, by simp⟩
      · have hheader : Leading.unopened p = 0 := by
          refine Leading.unopened_of_braceless fun x hx => ?_
          have := ClassHeader.stoppedReader.isStop_eq_false (hrest ▸ hread) x hx
          constructor <;> rintro hshown <;> rw [hshown] at this <;> cases this
        have hsum : Leading.unopened (close :: (o.before ++ (p ++ c :: b)))
            = Leading.unopened o.before := by
          rw [Leading.unopened, Leading.unopened_append, Leading.unopened_append, Leading.unopened,
            hheader, hopens, hclose, hc]
          show 1 + (Leading.unopened o.before + (0 + (-1 + 0))) = Leading.unopened o.before
          omega
        rwa [hsum]

include hbrace hclose hnested' in
/-- The connectors of a source are the same with another text in a class body that has the same
functions, if the definitions behind the class have the same above them. -/
theorem filterMap_classes_congr
    (hfunctions : functionsOf (above ++ hdr ++ [brace]) body
      = functionsOf (above ++ hdr ++ [brace]) body')
    (hleading : ∀ b, b <+: after →
      nesting Cell.shown (above ++ (hdr ++ brace :: (body ++ close :: b))) = 0 →
      Leading.ofBefore (above ++ (hdr ++ brace :: (body ++ close :: b)))
        = Leading.ofBefore (above ++ (hdr ++ brace :: (body' ++ close :: b))))
    (hdocs : ∀ b, b <+: after → 0 ≤ Leading.unopened (close :: b) →
      (Leading.ofBefore (above ++ (hdr ++ brace :: (body ++ close :: b)))).documentation
        = (Leading.ofBefore (above ++ (hdr ++ brace :: (body' ++ close :: b)))).documentation) :
    (occurrences ClassHeader.read? (above ++ (hdr ++ brace :: (body ++ close :: after)))).filterMap
        (Connector.ofOccurrence? package moduleName detail
          (above ++ (hdr ++ brace :: (body ++ close :: after))))
      = (occurrences ClassHeader.read?
          (above ++ (hdr ++ brace :: (body' ++ close :: after)))).filterMap
        (Connector.ofOccurrence? package moduleName detail
          (above ++ (hdr ++ brace :: (body' ++ close :: after)))) := by
  rw [filterMap_classes_append hbrace hclose hnested henclosed,
    filterMap_classes_append hbrace hclose hnested' henclosed']
  exact congrArg₂ _
    (List.filterMap_congr fun o ho =>
      ofOccurrence?_extend_congr hclass htop hnested henclosed henclosed' hfunctions ho)
    (List.filterMap_congr fun o ho => ofOccurrence?_shift_congr hclose hnested hnested' henclosed
      henclosed' hleading hdocs ho)

end Congr

end Classes

/-- The cells of a comment are those of a remark and a line break. -/
theorem exists_remark {xs : List Cell} {text : List Char} (hxs : ∀ x ∈ xs, x.isBlankCode = true)
    (hchars : chars xs = comment text) (htext : '\n' ∉ text) :
    ∃ remark x, xs = remark ++ [x] ∧ Leading.IsRemark remark ∧ x.char = '\n' := by
  have hlast : chars xs = ('/' :: '/' :: text) ++ ['\n'] := hchars
  obtain ⟨remark, last, rfl, hremark, hbreak⟩ := List.map_eq_append_iff.1 hlast
  obtain ⟨x, rfl, hx⟩ := List.map_eq_singleton_iff.1 hbreak
  have hmark : chars remark = '/' :: '/' :: text := hremark
  refine ⟨remark, x, rfl, ⟨fun y hy => hxs y (List.mem_append_left _ hy), ?_, fun y hy h => ?_⟩, hx⟩
  · rw [Leading.mark?, hmark, List.find?_cons_of_pos (by decide)]
  · have hmem : y.char ∈ chars remark := List.mem_map_of_mem hy
    rw [hmark, h] at hmem
    simp [htext] at hmem

/-- A text whose first line is no documentation does not begin as one. -/
theorem Leading.head?_dropWhile_isIndent {s : List Cell}
    (h : ∀ line ∈ (linesOf s).head?, isDocumentation line = false) :
    ((chars s).dropWhile Scan.isIndent).head? ≠ some '#' := by
  intro hhash
  obtain ⟨t, ht⟩ := List.head?_eq_some_iff.1 hhash
  have hsplit := List.takeWhile_append_dropWhile (p := Scan.isIndent) (l := chars s)
  rw [ht] at hsplit
  obtain ⟨a, b, rfl, ha, hb⟩ := List.map_eq_append_iff.1 hsplit.symm
  obtain ⟨y, b, rfl, hy, -⟩ := List.map_eq_cons_iff.1 hb
  have hindent : ∀ x ∈ a, x.char = ' ' ∨ x.char = '\t' ∨ x.char = '\r' := by
    intro x hx
    have := List.mem_takeWhile_imp (ha ▸ List.mem_map_of_mem hx)
    simpa [Scan.isIndent, or_assoc] using this
  have hblank : mark? a = none := by
    rw [mark?, List.find?_eq_none]
    intro c hc
    obtain ⟨x, hx, rfl⟩ := List.mem_map.1 hc
    rcases hindent x hx with h | h | h <;> rw [h] <;> decide
  have hline : ∀ x ∈ a ++ [y], x.char ≠ '\n' := by
    simp only [List.forall_mem_append, List.forall_mem_singleton, hy]
    refine ⟨fun x hx => ?_, by decide⟩
    rcases hindent x hx with h | h | h <;> rw [h] <;> decide
  obtain ⟨line, lines, -, hfirst⟩ := exists_first_line hline b
  rw [List.append_assoc, List.singleton_append] at hfirst
  have hdoc := h (a ++ [y] ++ line) (by rw [hfirst]; rfl)
  rw [isDocumentation_iff.2] at hdoc
  · cases hdoc
  · rw [mark?_append, mark?_append, hblank, mark?, chars, List.map_singleton, hy]
    rfl

section Place

variable {m : ClientMethod} {s classHeader inner methodHeader after a w remark : List Cell}
  {brace close paren x : Cell}
  (hstands : m.Stands s classHeader brace inner methodHeader close after)
  (hrest : m.rest = paren :: (a ++ w)) (hnested : wellNested Cell.shown s = true)
  (hunmarked : Leading.Unmarked (m.front ++ paren :: a) (w ++ close :: after))
  (hremark : Leading.IsRemark remark) (hx : x.char = '\n')

include hstands hrest

/-- The source around a place in a method. -/
theorem source_eq : s = m.above ++ (classHeader
    ++ brace :: (inner ++ (methodHeader ++ paren :: (a ++ w)) ++ close :: after)) := by
  rw [hstands.source, hrest]

omit hrest in
theorem front_append (b : List Cell) : m.front ++ paren :: a ++ b
    = m.above ++ classHeader ++ [brace] ++ (inner ++ (methodHeader ++ paren :: (a ++ b))) := by
  rw [hstands.front]
  simp

theorem enclosed?_body : enclosed? Cell.shown
    (brace :: (inner ++ (methodHeader ++ paren :: (a ++ w)) ++ close :: after))
      = some (inner ++ (methodHeader ++ paren :: (a ++ w)), after) := by
  have := enclosed?_of_closeIndex? hstands.closes
  rwa [hrest] at this

include hnested

theorem wellNested_body :
    wellNested Cell.shown (inner ++ (methodHeader ++ paren :: (a ++ w))) = true := by
  rw [source_eq hstands hrest, ← List.append_assoc] at hnested
  exact wellNested_of_enclosed? hnested (enclosed?_body hstands hrest)

include hunmarked hremark hx

/-- The functions of the class have the same documentation behind a comment. -/
theorem documentation_in_body {b : List Cell} (hb : b <+: w)
    (hmark : ∃ y ∈ b, isBlank y.char = false)
    (htop : nesting Cell.shown (inner ++ (methodHeader ++ paren :: (a ++ b))) = 0) :
    (Leading.ofBefore (m.front ++ paren :: a ++ b)).documentation
      = (Leading.ofBefore (m.front ++ paren :: a ++ (remark ++ x :: b))).documentation := by
  obtain ⟨t, rfl⟩ := hb
  rw [List.append_assoc] at hunmarked
  refine hunmarked.documentation_ofBefore hremark hx hmark ?_
  have hbody := wellNested_body hstands hrest hnested
  have hsplit : inner ++ (methodHeader ++ paren :: (a ++ (b ++ t)))
      = inner ++ (methodHeader ++ paren :: (a ++ b)) ++ t := by simp
  rw [hsplit] at hbody
  exact Leading.unopened_nonneg (wellNested_of_nesting hbody htop)
    ⟨inner ++ (methodHeader ++ paren :: a), by simp⟩

omit hunmarked hremark hx in
theorem unopened_nonneg_in_body : 0 ≤ Leading.unopened w :=
  Leading.unopened_nonneg (wellNested_body hstands hrest hnested)
    ⟨inner ++ (methodHeader ++ paren :: a), by simp⟩

omit hunmarked hremark hx hnested in
theorem close_shown : close.shown = '\x7d' := by
  obtain ⟨o, y, hsplit, hclosing, -⟩ := enclosed?_eq_some (enclosed?_body hstands hrest)
  obtain ⟨rfl, htail⟩ := List.cons.inj hsplit
  obtain ⟨rfl, -⟩ := List.cons.inj (List.append_cancel_left htail)
  rw [hstands.brace_shown] at hclosing
  exact (Option.some_inj.1 hclosing).symm

/-- The functions behind the class have the same documentation behind a comment. -/
theorem documentation_behind {b : List Cell} (hb : b <+: after)
    (hopen : 0 ≤ Leading.unopened (close :: b)) :
    (Leading.ofBefore (m.front ++ paren :: a ++ (w ++ close :: b))).documentation
      = (Leading.ofBefore
        (m.front ++ paren :: a ++ (remark ++ x :: (w ++ close :: b)))).documentation := by
  obtain ⟨t, rfl⟩ := hb
  have hclose := close_shown hstands hrest
  have hmark : isBlank close.char = false := isBlank_char_of_isStop (by rw [hclose]; rfl)
  have hw := unopened_nonneg_in_body hstands hrest hnested
  have hsplit : w ++ close :: (b ++ t) = w ++ close :: b ++ t := by simp
  rw [hsplit] at hunmarked
  refine hunmarked.documentation_ofBefore hremark hx ⟨close, by simp, hmark⟩ ?_
  rw [Leading.unopened_append]
  omega

/-- What stands above a definition behind the class is the same behind a comment. -/
theorem leading_behind {b : List Cell} (hb : b <+: after)
    (htop : nesting Cell.shown (m.front ++ paren :: a ++ (w ++ close :: b)) = 0) :
    Leading.ofBefore (m.front ++ paren :: a ++ (w ++ close :: b))
      = Leading.ofBefore (m.front ++ paren :: a ++ (remark ++ x :: (w ++ close :: b))) := by
  obtain ⟨t, rfl⟩ := hb
  have hclose := close_shown hstands hrest
  have hmark : isBlank close.char = false := isBlank_char_of_isStop (by rw [hclose]; rfl)
  have hw := unopened_nonneg_in_body hstands hrest hnested
  have hsplit : w ++ close :: (b ++ t) = w ++ close :: b ++ t := by simp
  have hwhole : s = m.front ++ paren :: a ++ (w ++ close :: b) ++ t := by
    rw [hstands.eq_append, hrest]
    simp
  rw [hwhole] at hnested
  have hfront := wellNested_of_nesting hnested htop
  have hb := Leading.unopened_nonneg hfront (t := b)
    ⟨m.front ++ paren :: a ++ (w ++ [close]), by simp⟩
  rw [hsplit] at hunmarked
  refine hunmarked.ofBefore_eq hremark hx ⟨close, by simp, hmark⟩ ?_
    (Leading.unopened_of_wellNestedFrom hfront)
  rw [Leading.unopened_append, Leading.unopened, if_pos hclose]
  omega

omit hnested hunmarked hremark hx in
theorem class_mem : ⟨m.above, m.client, [brace]⟩
    ∈ occurrences ClassHeader.read? (m.above ++ (classHeader ++ [brace])) := by
  have hclass := hstands.isClass
  rw [source_eq hstands hrest, hrest, ← List.append_assoc] at hclass
  have := ClassHeader.stoppedReader.mem_occurrences (by rw [hstands.brace_shown]; rfl) hclass
  rwa [List.append_assoc] at this

omit hnested hunmarked hremark hx in
theorem method_mem (hparen : paren.shown = '(') : ⟨inner, m.header, [paren]⟩
    ∈ occurrences MethodHeader.read? (inner ++ (methodHeader ++ [paren])) := by
  have hmethod := hstands.isMethod
  rw [hrest, ← List.append_assoc] at hmethod
  have := MethodHeader.stoppedReader.mem_occurrences (by rw [hparen]; rfl) hmethod
  rwa [List.append_assoc] at this

omit hnested hunmarked hremark hx in
/-- A method in front of another one in its class is a method of the source. -/
theorem exists_method_before (hparen : paren.shown = '(') {o : Occurrence MethodHeader}
    (ho : o ∈ occurrences MethodHeader.read? (inner ++ (methodHeader ++ [paren])))
    (hotop : nesting Cell.shown o.before = 0) (hcallable : o.header.isCallable = true)
    (hne : o ≠ ⟨inner, m.header, [paren]⟩) :
    ∃ m' ∈ methods s, m'.front <+: m.lead ∧ m'.rest = o.rest ++ (a ++ w) := by
  obtain ⟨p, c, r, hbefore, horest, -⟩ :=
    MethodHeader.stoppedReader.ends_before (method_mem hstands hrest hparen) ho hne
  have hbody : inner ++ (methodHeader ++ paren :: (a ++ w))
      = o.before ++ p ++ (o.rest ++ (a ++ w)) := by
    rw [hbefore, horest]
    simp
  have hclass := hstands.isClass
  rw [hrest] at hclass
  have hmem := MethodHeader.stoppedReader.mem_occurrences_extend (s := inner ++ methodHeader)
    (b := paren) (by rw [hparen]; rfl) (by rwa [List.append_assoc]) (a ++ w)
  rw [List.append_assoc] at hmem
  refine ⟨_, List.mem_flatMap.2 ⟨_, hclass, mem_methodsOf_iff.2 ⟨hstands.isTop, hstands.isConnector,
    _, after, enclosed?_body hstands hrest, _, hmem, hotop, hcallable, rfl⟩⟩, ?_, rfl⟩
  show s.take (s.length - (brace :: (inner ++ (methodHeader ++ paren :: (a ++ w))
      ++ close :: after)).length + 1) ++ (inner ++ (methodHeader ++ paren :: (a ++ w))).take
        ((inner ++ (methodHeader ++ paren :: (a ++ w))).length - (o.rest ++ (a ++ w)).length)
    <+: m.lead
  rw [take_of_rest (a := m.above ++ classHeader) (c := brace)
      (by simp [source_eq hstands hrest]) rfl,
    hbody, take_before, hstands.lead, hbefore]
  exact ⟨c :: r, by simp⟩

end Place

/-- A comment at a free place of a source with well nested brackets leaves all its connectors as they
are, if the place has no documentation or open annotation above it, if no other method begins
directly behind the parameter list, and if the return types of the methods in front end in front of
it. -/
theorem connectorsOfSource_comment (package : PackageName) (moduleName : String) (detail : Detail)
    {content content' : String} {m : ClientMethod} (hm : m ∈ methods (cells content.toList))
    {paren : Cell} {a w v : List Cell} (hrest : m.rest = paren :: a ++ w)
    (hplace : FreePlace paren a w) (hcontent : cells content.toList = m.front ++ paren :: a ++ v)
    (hcode : (Scan.start.final (chars (m.front ++ paren :: a))).context = .code)
    (hslash : (chars (m.front ++ paren :: a)).getLast? ≠ some '/') {text : List Char}
    (htext : '\n' ∉ text)
    (hcontent' : content'.toList = chars (m.front ++ paren :: a) ++ (comment text ++ chars v))
    (hnested : wellNested id (mask content).toList = true)
    (hunmarked : Leading.Unmarked (m.front ++ paren :: a) v)
    (hahead : ∀ p ∈ enclosed? Cell.shown m.rest, NoMethodAhead p.2)
    (htypes : ∀ m' ∈ methods (cells content.toList), m'.front <+: m.lead →
      ∀ list r, enclosed? Cell.shown m'.rest = some (list, r ++ w) → TypeEnds r) :
    connectorsOfSource package moduleName detail content'
      = connectorsOfSource package moduleName detail content := by
  obtain ⟨xs, hxs, hchars, hcells⟩ := Scan.cells_insert_comment hcontent hcode hslash
    (Leading.head?_dropWhile_isIndent hunmarked.line) htext
  obtain ⟨remark, x, rfl, hremark, hx⟩ := exists_remark hxs hchars htext
  obtain ⟨classHeader, brace, inner, methodHeader, close, after, hstands⟩ := mem_methods_iff.1 hm
  rw [List.cons_append] at hrest
  have hparen : paren.shown = '(' := by
    obtain ⟨b, r, -, hr, hb, -⟩ := exists_paren hm
    rw [hrest] at hr
    exact (List.cons.inj hr).1 ▸ hb
  have hv : v = w ++ close :: after := by
    have := hstands.eq_append
    rw [hcontent, hrest] at this
    simpa using this
  subst hv
  rw [mask, String.toList_ofList] at hnested
  have hwell : wellNested Cell.shown (cells content.toList) = true := by
    rwa [wellNested, ← spread_masked.wellNestedFrom_flatMap]
  have hfunctions : functionsOf (m.above ++ classHeader ++ [brace])
        (inner ++ (methodHeader ++ paren :: (a ++ w)))
      = functionsOf (m.above ++ classHeader ++ [brace])
        (inner ++ (methodHeader ++ paren :: (a ++ (remark ++ [x] ++ w)))) := by
    refine functionsOf_blanks (method_mem hstands hrest hparen) hstands.isTopMethod
      (wellNested_body hstands hrest hwell) hparen hplace hxs (hrest ▸ hahead)
      (fun o ho hotop hcallable hne list r hlist => ?_) fun b hb hmark htop => ?_
    · obtain ⟨m', hm', hfront, hrest'⟩ :=
        exists_method_before hstands hrest hparen ho hotop hcallable hne
      exact htypes m' hm' hfront list r (hrest' ▸ hlist)
    · have := documentation_in_body hstands hrest hwell hunmarked hremark hx hb hmark htop
      rw [front_append hstands, front_append hstands] at this
      simpa using this
  have hsplit : ∀ t u, m.front ++ paren :: a ++ (t ++ u) = m.above ++ (classHeader
      ++ brace :: (inner ++ (methodHeader ++ paren :: (a ++ t)) ++ u)) := by
    intro t u
    rw [front_append hstands]
    simp
  have hsource : cells content.toList = m.above ++ (classHeader
      ++ brace :: (inner ++ (methodHeader ++ paren :: (a ++ w)) ++ close :: after)) :=
    source_eq hstands hrest
  have hsource' : cells content'.toList = m.above ++ (classHeader
      ++ brace :: (inner ++ (methodHeader ++ paren :: (a ++ (remark ++ [x] ++ w)))
        ++ close :: after)) := by
    rw [cells, hcontent', hcells, ← List.append_assoc (remark ++ [x]), hsplit]
  have hwell' : wellNested Cell.shown (cells content'.toList) = true := by
    rw [hcontent] at hwell
    rw [cells, hcontent', hcells]
    exact (wellNestedFrom_insert hxs _ _ []).trans hwell
  have hclose := close_shown hstands hrest
  have henclosed' : enclosed? Cell.shown
      (brace :: (inner ++ (methodHeader ++ paren :: (a ++ (remark ++ [x] ++ w))) ++ close :: after))
        = some (inner ++ (methodHeader ++ paren :: (a ++ (remark ++ [x] ++ w))), after) := by
    refine enclosed?_of_neutral (by rw [hstands.brace_shown, hclose]; rfl)
      (neutral_of_wellNested ?_) after
    have hbody := wellNested_body hstands hrest hwell
    have hinsert := wellNestedFrom_insert hxs (inner ++ (methodHeader ++ paren :: a)) w []
    simp only [List.append_assoc, List.cons_append] at hinsert ⊢
    exact hinsert.trans hbody
  rw [connectorsOfSource, connectorsOfSource]
  simp only [hsource, hsource']
  refine (filterMap_classes_congr (class_mem hstands hrest) hstands.brace_shown hclose
    hstands.isTop (hsource ▸ hwell) (hsource' ▸ hwell') (enclosed?_body hstands hrest) henclosed'
    hfunctions (fun b hb htop => ?_) fun b hb hopen => ?_).symm
  · have := leading_behind hstands hrest hwell hunmarked hremark hx hb (by rwa [hsplit])
    rw [← hsplit, ← hsplit]
    simpa using this
  · have := documentation_behind hstands hrest hwell hunmarked hremark hx hb hopen
    rw [← hsplit, ← hsplit]
    simpa using this

/-- A comment with a comma and a parenthesis behind a default, between two other methods. -/
theorem connectorsOfSource_comment_behind_default :
    let lead := "public client class A \x7b\n".toList
      ++ "  remote function e() returns int \x7b\x7d\n".toList ++ "  # Adds\n  ".toList
    let behind := " \x7b\x7d\n  # Last\n".toList ++ "  remote function g() \x7b\x7d\n".toList
    let source := fun c => lead ++ "remote function f".toList ++ "(int a = 1".toList ++ c
      ++ ", int b)".toList ++ behind ++ "\x7d\n".toList
    let package : PackageName := ⟨"org", "pack", "1.0.0"⟩
    let functions : List ConnectorFunction :=
      [⟨"e", none, ["remote"], none, [], some ⟨"int", none⟩⟩,
        ⟨"f", none, ["remote"], some "Adds", [⟨"a", "int", true, none⟩, ⟨"b", "int", false, none⟩],
          none⟩,
        ⟨"g", none, ["remote"], some "Last", [], none⟩]
    let connectors := fun c =>
      connectorsOfSource package "pack" .detailed (String.ofList (source c))
    connectors [] = [⟨"A", "A", none, "pack", package, none, functions⟩] ∧
      connectors "// one, two)\n".toList = connectors [] := by
  intro lead behind source package functions connectors
  have hmem : ∃ m ∈ methods (cells (source [])), m.lead = cells lead ∧
      m.front = cells (lead ++ "remote function f".toList) ∧
        m.rest = plain "(int a = 1, int b)".toList ++ cells behind := by
    decide +kernel
  have htypes : ∀ m ∈ methods (cells (source [])), m.front <+: cells lead →
      ∀ p ∈ enclosed? Cell.shown m.rest,
        TypeEnds (p.2.take (p.2.length
          - (plain ", int b".toList ++ ⟨')', true⟩ :: cells behind).length)) := by
    decide +kernel
  obtain ⟨m, hm, hlead, hfront, hrest⟩ := hmem
  have hplace : FreePlace ⟨'(', true⟩ (plain "int a ".toList ++ ⟨'=', true⟩ :: plain " 1".toList)
      (plain ", int b".toList ++ ⟨')', true⟩ :: cells behind) :=
    .default (by decide +kernel) (by decide) (by decide) (by decide)
  have hsplit : m.rest = ⟨'(', true⟩ :: (plain "int a ".toList ++ ⟨'=', true⟩ :: plain " 1".toList)
      ++ (plain ", int b".toList ++ ⟨')', true⟩ :: cells behind) := by
    rw [hrest]
    decide +kernel
  have hcontent : cells (source [])
      = m.front ++ ⟨'(', true⟩ :: (plain "int a ".toList ++ ⟨'=', true⟩ :: plain " 1".toList)
        ++ cells (", int b)".toList ++ behind ++ "\x7d\n".toList) := by
    rw [hfront]
    decide +kernel
  have hunmarked : Leading.Unmarked
      (m.front ++ ⟨'(', true⟩ :: (plain "int a ".toList ++ ⟨'=', true⟩ :: plain " 1".toList))
      (cells (", int b)".toList ++ behind ++ "\x7d\n".toList)) := by
    rw [hfront]
    constructor <;> decide +kernel
  refine ⟨?_, connectorsOfSource_comment package "pack" .detailed
    (show m ∈ methods (cells (String.ofList (source [])).toList) by rwa [String.toList_ofList])
    hsplit hplace
    (by rwa [String.toList_ofList]) (by rw [hfront]; decide +kernel)
    (by rw [hfront]; decide +kernel) (show '\n' ∉ " one, two)".toList by decide)
    (by rw [String.toList_ofList, hfront]; decide +kernel)
    (by rw [mask, String.toList_ofList, String.toList_ofList]; decide +kernel)
    hunmarked (by rw [hrest]; decide +kernel) ?_⟩
  · show connectorsOfSource package "pack" .detailed (String.ofList (source [])) = _
    rw [connectorsOfSource, String.toList_ofList]
    decide +kernel
  · rw [hlead, String.toList_ofList]
    intro m' hm' hfront' list r hlist
    have htype := htypes m' hm' hfront' _ hlist
    rwa [List.length_append, Nat.add_sub_cancel, List.take_left] at htype

/-- A comment behind the name of a parameter is read as its name. -/
theorem comment_becomes_name :
    let source := fun c => "public client class A \x7b\n    remote function f(int a " ++ c
      ++ ") \x7b\n    \x7d\n\x7d\n"
    let parameters := fun c =>
      (connectorsOfSource ⟨"org", "pack", "1.0.0"⟩ "pack" .detailed (source c)).map fun c =>
        c.functions.map fun f => f.parameters.map fun p => (p.typeName, p.name)
    parameters "" = [[[("int", "a")]]] ∧
      parameters "// size\n" = [[[("int a //", "size")]]] := by
  decide +kernel

end ConnectorCatalog
