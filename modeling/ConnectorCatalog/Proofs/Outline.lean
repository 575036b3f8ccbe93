import ConnectorCatalog.Proofs.Flat

/-!
# Outlines

The outline of a connector is its name and, for each of its functions, the name, the resource path
and the qualifiers. The outlines of the connectors of a source are read from its masked text alone
(`outlines_eq_of_masked_eq`): no decision on which classes and functions there are looks at anything
else.
-/

namespace ConnectorCatalog

/-- What a function is called and how it is qualified. -/
structure FunctionOutline where
  name : String
  resourcePath : Option String
  qualifiers : List String
deriving DecidableEq, Repr

/-- The outline of a connector. -/
structure Outline where
  name : String
  functions : List FunctionOutline
deriving DecidableEq, Repr

/-- The outline of a function. -/
def ConnectorFunction.outline (f : ConnectorFunction) : FunctionOutline :=
  ⟨f.name, f.resourcePath, f.qualifiers⟩

/-- The outline of a connector. -/
def Connector.outline (c : Connector) : Outline := ⟨c.name, c.functions.map ConnectorFunction.outline⟩

/-- The outline of the function found at `o`. -/
def FunctionOutline.ofOccurrence? (o : Occurrence MethodHeader) : Option FunctionOutline :=
  if nesting Cell.shown o.before = 0 ∧ o.header.isCallable then
    (enclosed? Cell.shown o.rest).map fun _ =>
      ⟨o.header.nameAndPath.1, o.header.nameAndPath.2, o.header.qualifiers⟩
  else none

/-- The outlines of the functions in a class body. -/
def functionOutlines (body : List Cell) : List FunctionOutline :=
  (occurrences MethodHeader.read? body).filterMap FunctionOutline.ofOccurrence?

/-- The outline of the connector found at `o`. -/
def Outline.ofOccurrence? (o : Occurrence ClassHeader) : Option Outline :=
  if nesting Cell.shown o.before = 0 ∧ o.header.isConnector then
    (enclosed? Cell.shown o.rest).map fun p => ⟨o.header.name, functionOutlines p.1⟩
  else none

/-- The outlines of the connectors in some cells. -/
def outlines (s : List Cell) : List Outline :=
  (occurrences ClassHeader.read? s).filterMap Outline.ofOccurrence?

theorem map_outline_functionsOf (lead body : List Cell) :
    (functionsOf lead body).map ConnectorFunction.outline = functionOutlines body := by
  rw [functionsOf, functionOutlines, List.map_filterMap]
  refine congrArg (List.filterMap · _) (funext fun o => ?_)
  unfold ConnectorFunction.ofOccurrence? FunctionOutline.ofOccurrence?
  split
  · rw [Option.map_map]
    rfl
  · rfl

/-- The outlines are those of the connectors. -/
theorem map_outline_connectorsOfSource (package : PackageName) (moduleName content : String) :
    (connectorsOfSource package moduleName .detailed content).map Connector.outline
      = outlines (cells content.toList) := by
  rw [connectorsOfSource, outlines, List.map_filterMap]
  refine congrArg (List.filterMap · _) (funext fun o => ?_)
  unfold Connector.ofOccurrence? Outline.ofOccurrence?
  split
  · rw [Option.map_map]
    refine congrArg (Option.map · _) (funext fun p => ?_)
    simp only [Function.comp_apply, Connector.outline, map_outline_functionsOf]
  · rfl

theorem FunctionOutline.ofOccurrence?_flat (o : Occurrence MethodHeader) :
    FunctionOutline.ofOccurrence? o.flat = FunctionOutline.ofOccurrence? o := by
  unfold FunctionOutline.ofOccurrence? Occurrence.flat
  rw [nesting_flat, enclosed?_flat, Option.map_map]
  rfl

theorem functionOutlines_flat (body : List Cell) :
    functionOutlines (flat body) = functionOutlines body := by
  rw [functionOutlines, methods_flat, List.filterMap_map, functionOutlines]
  exact congrArg (List.filterMap · _) (funext FunctionOutline.ofOccurrence?_flat)

theorem Outline.ofOccurrence?_flat (o : Occurrence ClassHeader) :
    Outline.ofOccurrence? o.flat = Outline.ofOccurrence? o := by
  unfold Outline.ofOccurrence? Occurrence.flat
  rw [nesting_flat, enclosed?_flat, Option.map_map]
  split
  · refine congrArg (Option.map · _) (funext fun p => ?_)
    rw [Function.comp_apply, functionOutlines_flat]
  · rfl

/-- The outlines in the masked text are those in the cells. -/
theorem outlines_flat (s : List Cell) : outlines (flat s) = outlines s := by
  rw [outlines, classes_flat, List.filterMap_map, outlines]
  exact congrArg (List.filterMap · _) (funext Outline.ofOccurrence?_flat)

/-- Cells with the same masked text have the same outlines. -/
theorem outlines_eq_of_masked_eq {s r : List Cell} (h : masked s = masked r) :
    outlines s = outlines r := by
  rw [← outlines_flat s, flat_eq_plain, h, ← flat_eq_plain, outlines_flat]

end ConnectorCatalog
