import ConnectorCatalog.Connector.Extract
import ConnectorCatalog.Proofs.Ahead
import ConnectorCatalog.Proofs.Composition
import ConnectorCatalog.Proofs.Neutral

/-!
# Methods and where they stand

The methods that can be called on the connectors of a source, in order, each with the cells before
it and the cells of its signature and body (`methods`). The functions of a detailed description are
what these methods describe, no more and no fewer (`functions_connectorsOfSource`), and what a
method is called and where it stands is not changed by its parameter list (`mem_methods_replace`).
-/

namespace ConnectorCatalog

/-- A method that can be called on a connector, and where it stands in a source. -/
structure ClientMethod where
  /-- The cells before the header of its class. -/
  above : List Cell
  /-- The header of its class. -/
  client : ClassHeader
  header : MethodHeader
  /-- The cells before its header. -/
  lead : List Cell
  /-- The cells before its parameter list. -/
  front : List Cell
  /-- The cells from the parenthesis of its parameter list to the end of the class body. -/
  rest : List Cell

/-- The methods in the class found at `k`, if that is a connector. -/
def methodsOf (source : List Cell) (k : Occurrence ClassHeader) : List ClientMethod :=
  if nesting Cell.shown k.before = 0 ∧ k.header.isConnector then
    match enclosed? Cell.shown k.rest with
    | none => []
    | some (body, _) =>
      let lead := source.take (source.length - k.rest.length + 1)
      (occurrences MethodHeader.read? body).filterMap fun o =>
        if nesting Cell.shown o.before = 0 ∧ o.header.isCallable then
          some
            { above := k.before
              client := k.header
              header := o.header
              lead := lead ++ o.before
              front := lead ++ body.take (body.length - o.rest.length)
              rest := o.rest }
        else none
  else []

/-- The methods that can be called on the connectors of a source. -/
def methods (source : List Cell) : List ClientMethod :=
  (occurrences ClassHeader.read? source).flatMap (methodsOf source)

namespace ClientMethod

/-- The connector of a method, without its functions. -/
def connector (package : PackageName) (moduleName : String) (m : ClientMethod) : Connector :=
  let leading := Leading.ofBefore m.above
  let display := DisplayAnnotation.ofAnnotations? leading.annotationText
  { name := m.client.name
    displayName := (display.bind DisplayAnnotation.label).getD m.client.name
    documentation := (Documentation.ofLines leading.documentationLines).description
    moduleName
    package
    displayAnnotation := display
    functions := [] }

/-- What is written about a method. -/
def documentation (m : ClientMethod) : Documentation :=
  Documentation.ofLines (Leading.ofBefore m.lead).documentationLines

/-- The function with some parameters and some text behind them. -/
def function (m : ClientMethod) (list after : List Cell) : ConnectorFunction :=
  { name := m.header.nameAndPath.1
    resourcePath := m.header.nameAndPath.2
    qualifiers := m.header.qualifiers
    documentation := m.documentation.description
    parameters := parametersOf m.documentation list
    returnType := (returnTypeOf after).map fun type => ⟨type, m.documentation.returns⟩ }

/-- The function that a method describes, if its parameter list is closed. -/
def function? (m : ClientMethod) : Option ConnectorFunction :=
  (enclosed? Cell.shown m.rest).map fun (list, after) => m.function list after

/-- Of the parameter list only its parameters count, and of what follows only the return type. -/
theorem function_congr {m : ClientMethod} {list list' after after' : List Cell}
    (hparameters : parametersOf m.documentation list = parametersOf m.documentation list')
    (htype : returnTypeOf after = returnTypeOf after') :
    m.function list after = m.function list' after' := by
  rw [function, function, hparameters, htype]

theorem function?_of_enclosed? {m : ClientMethod} {list after : List Cell}
    (h : enclosed? Cell.shown m.rest = some (list, after)) :
    m.function? = some (m.function list after) := by
  rw [function?, h, Option.map_some]

end ClientMethod

section Functions

variable {package : PackageName} {moduleName : String} {content : String}

/-- The functions of a class are those of its methods. -/
theorem functions_ofOccurrence? (source : List Cell) (k : Occurrence ClassHeader) :
    ((Connector.ofOccurrence? package moduleName .detailed source k).toList.flatMap fun c =>
        c.functions.map fun f => (c.withoutFunctions, f))
      = (methodsOf source k).filterMap fun m =>
        m.function?.map fun f => (m.connector package moduleName, f) := by
  unfold Connector.ofOccurrence? methodsOf
  split
  · cases enclosed? Cell.shown k.rest with
    | none => rfl
    | some p =>
      simp only [Option.map_some, Option.toList_some, List.flatMap_singleton, functionsOf,
        List.map_filterMap, List.filterMap_filterMap]
      refine congrArg (List.filterMap · _) (funext fun o => ?_)
      unfold ConnectorFunction.ofOccurrence?
      split
      · rw [Option.bind_some, ClientMethod.function?, Option.map_map, Option.map_map]
        rfl
      · rfl
  · rfl

/-- The functions of the connectors of a source, in order, are what its methods describe. -/
theorem functions_connectorsOfSource :
    ((connectorsOfSource package moduleName .detailed content).flatMap fun c =>
        c.functions.map fun f => (c.withoutFunctions, f))
      = (methods (cells content.toList)).filterMap fun m =>
        m.function?.map fun f => (m.connector package moduleName, f) := by
  rw [connectorsOfSource, methods, List.filterMap_eq_flatMap_toList, List.flatMap_assoc,
    List.filterMap_flatMap]
  exact congrArg (List.flatMap · _) (funext fun k => functions_ofOccurrence? _ k)

/-- What a method of a source describes is a function of its connector. -/
theorem exists_connector {m : ClientMethod} (hm : m ∈ methods (cells content.toList))
    {f : ConnectorFunction} (hf : m.function? = some f) :
    ∃ c ∈ connectorsOfSource package moduleName .detailed content,
      c.withoutFunctions = m.connector package moduleName ∧ f ∈ c.functions := by
  have hmem : (m.connector package moduleName, f) ∈
      (methods (cells content.toList)).filterMap fun m =>
        m.function?.map fun f => (m.connector package moduleName, f) :=
    List.mem_filterMap.2 ⟨m, hm, by rw [hf, Option.map_some]⟩
  rw [← functions_connectorsOfSource] at hmem
  obtain ⟨c, hc, hf⟩ := List.mem_flatMap.1 hmem
  obtain ⟨f', hf', he⟩ := List.mem_map.1 hf
  obtain ⟨hconnector, rfl⟩ := Prod.mk.inj he
  exact ⟨c, hc, hconnector, hf'⟩

end Functions

section Place

/-- The method `m` stands in the source `s`: above its class, then the header of that up to the
brace, and the class body; in this the method has the cells `inner` in front of its header, and the
header up to its parenthesis. -/
structure ClientMethod.Stands (m : ClientMethod) (s classHeader : List Cell) (brace : Cell)
    (inner methodHeader : List Cell) (close : Cell) (after : List Cell) : Prop where
  source : s = m.above ++ (classHeader
    ++ brace :: (inner ++ (methodHeader ++ m.rest) ++ close :: after))
  isClass : ⟨m.above, m.client, brace :: (inner ++ (methodHeader ++ m.rest) ++ close :: after)⟩
    ∈ occurrences ClassHeader.read? s
  brace_shown : brace.shown = '\x7b'
  isTop : nesting Cell.shown m.above = 0
  isConnector : m.client.isConnector = true
  closes : closeIndex? Cell.shown (brace :: (inner ++ (methodHeader ++ m.rest) ++ close :: after))
    = some ((inner ++ (methodHeader ++ m.rest)).length + 1)
  isMethod : ⟨inner, m.header, m.rest⟩
    ∈ occurrences MethodHeader.read? (inner ++ (methodHeader ++ m.rest))
  isTopMethod : nesting Cell.shown inner = 0
  isCallable : m.header.isCallable = true
  lead : m.lead = m.above ++ (classHeader ++ [brace]) ++ inner
  front : m.front = m.above ++ (classHeader ++ [brace]) ++ inner ++ methodHeader

theorem take_before {α : Type _} (a b : List α) :
    (a ++ b).take ((a ++ b).length - b.length) = a := by
  rw [List.length_append, Nat.add_sub_cancel, List.take_left]

theorem take_through {α : Type _} (a b : List α) (x : α) :
    (a ++ x :: b).take ((a ++ x :: b).length - (x :: b).length + 1) = a ++ [x] := by
  have hlen : (a ++ x :: b).length - (x :: b).length + 1 = (a ++ [x]).length := by simp
  have hsplit : a ++ x :: b = a ++ [x] ++ b := by simp
  rw [hlen, hsplit, List.take_left]

/-- The method found at `o` in the body of the class found at `k`. -/
theorem mem_methodsOf_iff {s : List Cell} {k : Occurrence ClassHeader} {m : ClientMethod} :
    m ∈ methodsOf s k ↔ nesting Cell.shown k.before = 0 ∧ k.header.isConnector = true ∧
      ∃ body after, enclosed? Cell.shown k.rest = some (body, after) ∧
        ∃ o ∈ occurrences MethodHeader.read? body,
          nesting Cell.shown o.before = 0 ∧ o.header.isCallable = true ∧
          m = { above := k.before
                client := k.header
                header := o.header
                lead := s.take (s.length - k.rest.length + 1) ++ o.before
                front := s.take (s.length - k.rest.length + 1)
                  ++ body.take (body.length - o.rest.length)
                rest := o.rest } := by
  unfold methodsOf
  by_cases hk : nesting Cell.shown k.before = 0 ∧ k.header.isConnector = true
  · rw [if_pos hk]
    cases he : enclosed? Cell.shown k.rest with
    | none => simp
    | some p =>
      obtain ⟨body, after⟩ := p
      simp only [List.mem_filterMap, Option.ite_none_right_eq_some, Option.some_inj]
      constructor
      · rintro ⟨o, ho, ⟨h1, h2⟩, rfl⟩
        exact ⟨hk.1, hk.2, body, after, rfl, o, ho, h1, h2, rfl⟩
      · rintro ⟨-, -, _, _, hbody, o, ho, h1, h2, rfl⟩
        cases hbody
        exact ⟨o, ho, ⟨h1, h2⟩, rfl⟩
  · rw [if_neg hk]
    simpa using fun h1 h2 => absurd ⟨h1, h2⟩ hk

/-- The methods of a source are those that stand in it. -/
theorem mem_methods_iff {s : List Cell} {m : ClientMethod} :
    m ∈ methods s ↔ ∃ classHeader brace inner methodHeader close after,
      m.Stands s classHeader brace inner methodHeader close after := by
  constructor
  · intro hm
    obtain ⟨⟨before, client, rest⟩, hk, hm⟩ := List.mem_flatMap.1 hm
    obtain ⟨htop, hconnector, body, after, he, ⟨inner, header, rest'⟩, ho, htop', hcallable, rfl⟩ :=
      mem_methodsOf_iff.1 hm
    obtain ⟨classHeader, brace, r, hs, rfl, hbrace⟩ :=
      split_of_mem_occurrences ClassHeader.headerReader hk
    obtain ⟨methodHeader, paren, r', hbody, rfl, -⟩ :=
      split_of_mem_occurrences MethodHeader.headerReader ho
    obtain ⟨_, close, hclass, -, hclose⟩ := enclosed?_eq_some he
    obtain ⟨rfl, rfl⟩ := List.cons.inj hclass
    subst hs
    subst hbody
    have hlead := take_through (before ++ classHeader)
      (inner ++ (methodHeader ++ paren :: r') ++ close :: after) brace
    have hfront := take_before (inner ++ methodHeader) (paren :: r')
    simp only [List.append_assoc] at hlead hfront
    refine ⟨classHeader, brace, inner, methodHeader, close, after, rfl, hk, hbrace, htop,
      hconnector, hclose, ho, htop', hcallable, ?_, ?_⟩
    · simp only [List.append_assoc, hlead]
    · simp only [List.append_assoc, hlead, hfront]
  · rintro ⟨classHeader, brace, inner, methodHeader, close, after, h⟩
    refine List.mem_flatMap.2 ⟨_, h.isClass, mem_methodsOf_iff.2 ⟨h.isTop, h.isConnector, _, after,
      enclosed?_of_closeIndex? h.closes, _, h.isMethod, h.isTopMethod, h.isCallable, ?_⟩⟩
    have hlead := take_through (m.above ++ classHeader)
      (inner ++ (methodHeader ++ m.rest) ++ close :: after) brace
    have hfront := take_before (inner ++ methodHeader) m.rest
    simp only [List.append_assoc] at hlead hfront
    have hl := h.lead
    have hf := h.front
    have hs := h.source
    obtain ⟨above, client, header, lead, front, rest⟩ := m
    simp only at hl hf hlead hfront hs
    subst hl hf hs
    simp only [List.append_assoc, hlead, hfront]

/-- The source before a method's parameter list, from there to the end of its class, and behind. -/
theorem ClientMethod.Stands.eq_append {m : ClientMethod} {s classHeader : List Cell} {brace : Cell}
    {inner methodHeader : List Cell} {close : Cell} {after : List Cell}
    (h : m.Stands s classHeader brace inner methodHeader close after) :
    s = m.front ++ (m.rest ++ close :: after) := by
  rw [h.source, h.front]
  simp

/-- A method's parameter list begins with a parenthesis. -/
theorem exists_paren {m : ClientMethod} {s : List Cell} (hm : m ∈ methods s) :
    ∃ paren r after, m.rest = paren :: r ∧ paren.shown = '(' ∧
      s = m.front ++ (m.rest ++ after) := by
  obtain ⟨_, _, _, _, close, after, h⟩ := mem_methods_iff.1 hm
  obtain ⟨-, paren, r, -, hrest, hparen⟩ :=
    split_of_mem_occurrences MethodHeader.headerReader h.isMethod
  exact ⟨paren, r, close :: after, hrest, hparen, h.eq_append⟩

/-- A method stays where it is when a text behind its parenthesis takes the place of another one,
both with their brackets in order. -/
theorem mem_methods_replace {m : ClientMethod} {a x v w : List Cell} {paren : Cell}
    (hm : m ∈ methods (m.front ++ (paren :: a ++ (x ++ v))))
    (hrest : m.rest = paren :: a ++ (x ++ w)) (hx : Neutral Cell.shown x) {x' : List Cell}
    (hx' : Neutral Cell.shown x') :
    { m with rest := paren :: a ++ (x' ++ w) }
      ∈ methods (m.front ++ (paren :: a ++ (x' ++ v))) := by
  obtain ⟨classHeader, brace, inner, methodHeader, close, after, h⟩ := mem_methods_iff.1 hm
  have hv : v = w ++ close :: after := by
    have := h.eq_append
    rw [hrest, List.append_cancel_left_eq, List.append_assoc, List.append_cancel_left_eq,
      List.append_assoc, List.append_cancel_left_eq] at this
    exact this
  have hparen : paren.shown = '(' := by
    obtain ⟨b, r, -, hr, hb, -⟩ := exists_paren hm
    rw [hrest, List.cons_append] at hr
    obtain ⟨rfl, -⟩ := List.cons.inj hr
    exact hb
  have hfront := h.front
  have hclass := h.isClass
  have hmethod := h.isMethod
  have hcloses := enclosed?_of_closeIndex? h.closes
  rw [h.source, hrest, ← List.append_assoc] at hclass
  rw [hrest, List.cons_append, ← List.append_assoc] at hmethod
  rw [hrest] at hcloses
  refine mem_methods_iff.2 ⟨classHeader, brace, inner, methodHeader, close, after, ?_, ?_,
    h.brace_shown, h.isTop, h.isConnector, ?_, ?_, h.isTopMethod, h.isCallable, h.lead, h.front⟩
  · rw [hv, hfront]
    simp
  · have := ClassHeader.stoppedReader.mem_occurrences (h.brace_shown ▸ rfl) hclass
    have := ClassHeader.stoppedReader.mem_occurrences_extend (h.brace_shown ▸ rfl) this
      (inner ++ (methodHeader ++ (paren :: a ++ (x' ++ w))) ++ close :: after)
    rw [hv, hfront]
    simpa [Occurrence.extend] using this
  · have hsplit : ∀ y, inner ++ (methodHeader ++ (paren :: a ++ (y ++ w)))
        = inner ++ methodHeader ++ paren :: a ++ (y ++ w) := fun y => by simp
    rw [hsplit] at hcloses
    have := enclosed?_replace hcloses hx hx'
    obtain ⟨_, _, -, -, hi⟩ := enclosed?_eq_some this
    rwa [← hsplit] at hi
  · have := MethodHeader.stoppedReader.mem_occurrences (hparen ▸ rfl) hmethod
    have := MethodHeader.stoppedReader.mem_occurrences_extend (hparen ▸ rfl) this (a ++ (x' ++ w))
    simpa [Occurrence.extend] using this

/-- A method's parameter list stands between parentheses. -/
theorem exists_list {m : ClientMethod} {s : List Cell} (hm : m ∈ methods s) {list after : List Cell}
    (hlist : enclosed? Cell.shown m.rest = some (list, after)) :
    ∃ paren close behind, paren.shown = '(' ∧ close.shown = ')' ∧
      m.rest = paren :: (list ++ close :: after) ∧
      s = m.front ++ paren :: (list ++ close :: (after ++ behind)) := by
  obtain ⟨paren, r, behind, hr, hparen, hs⟩ := exists_paren hm
  obtain ⟨o, close, hrest, hclosing, -⟩ := enclosed?_eq_some hlist
  obtain ⟨rfl, -⟩ := List.cons.inj (hr.symm.trans hrest)
  rw [hparen] at hclosing
  refine ⟨paren, close, behind, hparen, (Option.some_inj.1 hclosing).symm, hrest, ?_⟩
  rw [hs, hrest]
  simp

/-- The parameter list around a text stays too, when another one takes the place of the text. -/
theorem exists_replaced {m : ClientMethod} {s : List Cell} (hm : m ∈ methods s)
    {a x b after v : List Cell} {paren : Cell}
    (hlist : enclosed? Cell.shown m.rest = some (a ++ (x ++ b), after))
    (hs : s = m.front ++ paren :: (a ++ (x ++ v))) (hx : Neutral Cell.shown x) {x' : List Cell}
    (hx' : Neutral Cell.shown x') :
    ∃ rest, { m with rest } ∈ methods (m.front ++ paren :: (a ++ (x' ++ v))) ∧
      enclosed? Cell.shown rest = some (a ++ (x' ++ b), after) := by
  obtain ⟨o, close, behind, -, -, hrest, hsource⟩ := exists_list hm hlist
  obtain rfl : o = paren := by
    rw [hs, List.append_cancel_left_eq] at hsource
    exact (List.cons.inj hsource).1.symm
  rw [hrest] at hlist
  refine ⟨o :: a ++ (x' ++ (b ++ close :: after)), ?_, ?_⟩
  · refine mem_methods_replace (x := x) ?_ ?_ hx hx'
    · simpa [hs] using hm
    · simp [hrest]
  · simpa using enclosed?_replace hlist hx hx'

end Place

end ConnectorCatalog
