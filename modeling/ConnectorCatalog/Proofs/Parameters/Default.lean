import ConnectorCatalog.Proofs.ClientMethod
import ConnectorCatalog.Proofs.Parameters.Basic
import ConnectorCatalog.Proofs.Segment

/-!
# Defaults of parameters

A default may be put in place of another one, if it does not change where the list is cut. Angle
brackets count as brackets there, although they compare in an expression: no comma may stand where
they make up for the other brackets, and where parameters follow, both defaults have to leave as
many of them open (`function_default`). A comparison in place of a literal hides the parameters
behind it (`comparison_hides_parameter`).
-/

namespace ConnectorCatalog

/-- The brackets of an expression are well nested, and no comma stands where all brackets before it,
angle brackets included, make up for each other. -/
structure IsExpression (e : List Cell) : Prop where
  wellNested : wellNested Cell.shown e = true
  uncut : topPieces Cell.shown ',' e = [e]

theorem isExpression_of_nested {e : List Cell} (h : nested Cell.shown [','] e = true) :
    IsExpression e :=
  ⟨wellNestedFrom_of_nestedFrom h, (whole_of_nested (List.mem_singleton_self _) h).pieces⟩

/-- A default that is put in place of another one leaves the function as it is, with all its
parameters, if as many angle brackets are open behind both or no parameter follows. -/
theorem function_default (package : PackageName) (moduleName : String) {content content' : String}
    {m : ClientMethod} (hm : m ∈ methods (cells content.toList)) {pre e post after : List Cell}
    {q : Cell}
    (hlist : enclosed? Cell.shown m.rest = some (pre ++ q :: (e ++ post), after))
    (hq : q.shown = '=') (hpre : typeNesting Cell.shown pre = 0) (he : IsExpression e)
    (hpost : ∀ x ∈ post.head?, x.shown = ',')
    {e' : List Char} (hclosed : (Scan.inLine.final e').context = .code)
    (he' : IsExpression (Scan.inLine.cells e'))
    (hangle : post = [] ∨ typeNesting Cell.shown e = typeNesting Cell.shown (Scan.inLine.cells e'))
    {paren : Cell} {v : List Cell}
    (hcontent : cells content.toList = m.front ++ paren :: (pre ++ q :: (e ++ v)))
    (hcontent' : content'.toList = chars (m.front ++ paren :: (pre ++ [q])) ++ (e' ++ chars v)) :
    ∃ f rest, m.function? = some f ∧
      { m with rest } ∈ methods (cells content'.toList) ∧ { m with rest }.function? = some f ∧
      (∃ c ∈ connectorsOfSource package moduleName .detailed content,
        c.withoutFunctions = m.connector package moduleName ∧ f ∈ c.functions) ∧
      ∃ c ∈ connectorsOfSource package moduleName .detailed content',
        c.withoutFunctions = m.connector package moduleName ∧ f ∈ c.functions := by
  -- the text behind the default begins with a comma or with the closing parenthesis
  obtain ⟨y, v', rfl, hy⟩ : ∃ y v', v = y :: v' ∧ IsMark y.shown := by
    obtain ⟨o, close, behind, -, hclose, -, hsource⟩ := exists_list hm hlist
    rw [hcontent, List.append_cancel_left_eq, List.cons.injEq] at hsource
    have hv : v = post ++ close :: (after ++ behind) := by simpa using hsource.2
    rw [hv]
    cases post with
    | nil => exact ⟨close, _, rfl, by rw [hclose]; decide⟩
    | cons x post => exact ⟨x, _, rfl, by rw [hpost x rfl]; decide⟩
  have hnew : cells content'.toList
      = m.front ++ paren :: (pre ++ q :: (Scan.inLine.cells e' ++ y :: v')) := by
    have hsplit : ∀ e v, m.front ++ paren :: (pre ++ q :: (e ++ v))
        = m.front ++ paren :: pre ++ q :: (e ++ v) := fun e v => by simp
    rw [hsplit] at hcontent ⊢
    rw [← Scan.cells_replace hcontent (by rw [hq]; decide) hy hclosed, hcontent', cells]
    simp
  have hcut : ∀ r, pre ++ q :: r = pre ++ [q] ++ r := List.append_cons pre q
  have hlist' := hlist
  rw [hcut] at hlist' hcontent hnew
  obtain ⟨rest, hmem, henclosed⟩ := exists_replaced hm hlist' hcontent
    (neutral_of_wellNested he.wellNested) (neutral_of_wellNested he'.wellNested)
  rw [← hnew] at hmem
  rw [← hcut] at henclosed
  have hf := ClientMethod.function?_of_enclosed? hlist
  have hf' := ClientMethod.function?_of_enclosed? (m := { m with rest }) henclosed
  have hparameters := parametersOf_default m.documentation hq hpre he.uncut he'.uncut hangle
  rw [ClientMethod.function_congr hparameters rfl] at hf
  exact ⟨_, rest, hf, hmem, hf', exists_connector hm hf, exists_connector hmem hf'⟩

/-- A call and two comparisons, one each way, in place of a literal. -/
theorem function_default_comparisons :
    let source := fun e => "public client class A \x7b\n    remote function f(boolean a =" ++ e
      ++ ", int b = 3) \x7b\n    \x7d\n\x7d\n"
    let package : PackageName := ⟨"org", "pack", "1.0.0"⟩
    let connectors := fun e => connectorsOfSource package "pack" .detailed (source e)
    let client : Connector := ⟨"A", "A", none, "pack", package, none, []⟩
    let function : ConnectorFunction := ⟨"f", none, ["remote"], none,
      [⟨"a", "boolean", true, none⟩, ⟨"b", "int", true, none⟩], none⟩
    let e := " len([1, 2], \"x, y\") > 0 && 0 < 1"
    (∃ c ∈ connectors " true", c.withoutFunctions = client ∧ function ∈ c.functions) ∧
      ∃ c ∈ connectors e, c.withoutFunctions = client ∧ function ∈ c.functions := by
  intro source package connectors client function e
  have hmethods : (methods (cells (source " true").toList)).map
        (fun m => (m.front, m.rest, m.connector package "pack", m.function?))
      = [(plain "public client class A \x7b\n    remote function f".toList,
        plain "(boolean a = true, int b = 3) \x7b\n    \x7d\n".toList, client,
        some function)] := by decide +kernel
  obtain ⟨m, hm, hmethod⟩ := List.map_eq_singleton_iff.1 hmethods
  simp only [Prod.mk.injEq] at hmethod
  obtain ⟨hfront, hrest, hconnector, hfunction⟩ := hmethod
  have hmem : m ∈ methods (cells (source " true").toList) := by
    rw [hm]
    exact List.mem_singleton_self m
  have hlist : enclosed? Cell.shown m.rest = some
      (plain "boolean a ".toList
          ++ ⟨'=', true⟩ :: (plain " true".toList ++ plain ", int b = 3".toList),
        plain " \x7b\n    \x7d\n".toList) := by
    rw [hrest]
    decide +kernel
  have hcontent : cells (source " true").toList
      = m.front ++ ⟨'(', true⟩ :: (plain "boolean a ".toList
      ++ ⟨'=', true⟩ :: (plain " true".toList
        ++ plain ", int b = 3) \x7b\n    \x7d\n\x7d\n".toList)) := by
    rw [hfront]
    decide +kernel
  have hcontent' : (source e).toList
      = chars (m.front ++ ⟨'(', true⟩ :: (plain "boolean a ".toList ++ [⟨'=', true⟩]))
        ++ (e.toList ++ chars (plain ", int b = 3) \x7b\n    \x7d\n\x7d\n".toList)) := by
    rw [hfront]
    decide +kernel
  obtain ⟨f, rest, hf, -, -, hc, hc'⟩ := function_default package "pack" hmem hlist rfl
    (by decide) (isExpression_of_nested (by decide)) (by decide) (by decide)
    ⟨by decide, by decide⟩ (.inr (by decide)) hcontent hcontent'
  rw [hconnector] at hc hc'
  obtain rfl := Option.some_inj.1 (hf.symm.trans hfunction)
  exact ⟨hc, hc'⟩

/-- A comparison in place of a literal hides the parameter behind it, although its brackets are well
nested and it has no comma and no string. -/
theorem comparison_hides_parameter :
    let source := fun e => "public client class A \x7b\n    remote function f(boolean a =" ++ e
      ++ ", int b = 3) \x7b\n    \x7d\n\x7d\n"
    let parameters := fun e =>
      (connectorsOfSource ⟨"org", "pack", "1.0.0"⟩ "pack" .detailed (source e)).map fun c =>
        c.functions.map fun f => f.parameters.map Parameter.name
    (Scan.inLine.final " 1 < 2".toList).context = .code ∧
      wellNested Cell.shown (Scan.inLine.cells " 1 < 2".toList) = true ∧
      (∀ x ∈ Scan.inLine.cells " 1 < 2".toList, x.shown ≠ ',') ∧
      parameters " true" = [[["a", "b"]]] ∧
      parameters " 1 < 2" = [[["a"]]] := by
  decide +kernel

end ConnectorCatalog
