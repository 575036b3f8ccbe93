import ConnectorCatalog.Connector.Extract
import ConnectorCatalog.Offset.Leading
import ConnectorCatalog.Offset.Mask
import ConnectorCatalog.Offset.Signature

/-!
# Connectors of a project by offset

The connectors of a project found by working on two texts of each document, the source and its
masked form. Everything is located in the masked text by byte offsets, and names, types and
documentation are cut from the source at those offsets. What becomes of a count that does not fit 32
bits is settled by a mode.
-/

namespace ConnectorCatalog.Offset

/-- A header found in a text, the offset at which it begins and the one after its bracket. -/
structure Found (η : Type) where
  header : η
  start : Nat
  stop : Nat

/-- The headers that `read?` finds in a text. -/
def headersIn {η : Type} (read? : List Cell → Option (η × List Cell)) (t : List Char) :
    List (Found η) :=
  (occurrences read? (t.map fun c => ⟨c, true⟩)).map fun o =>
    ⟨o.header, byteLength (chars o.before), byteLength t - byteLength (chars o.rest) + 1⟩

/-- The display annotation among some annotations. -/
def displayAnnotation (annotations : List Char) : Except Fault (Option DisplayAnnotation) :=
  match findPhrase? "@display".toList annotations with
  | none => return none
  | some start => do
    let body ← slice annotations start (byteLength annotations)
    let body ← match findChar? (· == '\x7d') body with
      | none => pure body
      | some last => slice body 0 last
    return some {
      label := firstFound? (quotedField? "label") body
      iconPath := firstFound? (quotedField? "iconPath") body }

section
variable (mode : Overflow)

/-- The function with a header found in the class body between two offsets. -/
def functionAt (source masked : List Char) (first last : Nat) (found : Found MethodHeader) :
    Except Fault (Option ConnectorFunction) := do
  let start := first + found.start
  let depth ← nestingDepth mode (bytesOf masked) first start
  if depth ≠ 0 ∨ !found.header.isCallable then return none
  else
    let opening ← predecessor (first + found.stop)
    let close ← matchingClose (bytesOf masked) opening
    match close.filter (· < last) with
    | none => return none
    | some close =>
      let leading ← leadingMetadata mode source masked start
      let docs := Documentation.ofLines leading.documentationLines
      let parameters ← parametersAt mode docs source masked (opening + 1) close
      let returnType ← returnTypeAt mode source masked (close + 1) last
      return some {
        name := found.header.nameAndPath.1
        resourcePath := found.header.nameAndPath.2
        qualifiers := found.header.qualifiers
        documentation := docs.description
        parameters
        returnType := returnType.map fun type => ⟨type, docs.returns⟩ }

/-- The callable functions in the class body between two brackets. -/
def functionsAt (source masked : List Char) (opening close : Nat) :
    Except Fault (List ConnectorFunction) := do
  let body ← slice masked (opening + 1) close
  let functions ← (headersIn MethodHeader.read? body).mapM
    (functionAt mode source masked (opening + 1) close)
  return functions.filterMap id

/-- The connector with a header found in a document, if that is one. -/
def connectorAt (package : PackageName) (moduleName : String) (detail : Detail)
    (source masked : List Char) (found : Found ClassHeader) : Except Fault (Option Connector) := do
  let depth ← nestingDepth mode (bytesOf masked) 0 found.start
  if depth ≠ 0 ∨ !found.header.isConnector then return none
  else
    let opening ← predecessor found.stop
    let close ← matchingClose (bytesOf masked) opening
    match close with
    | none => return none
    | some close =>
      let leading ← leadingMetadata mode source masked found.start
      let display ← displayAnnotation leading.annotationText
      let functions ← match detail with
        | .summary => pure []
        | .detailed => functionsAt mode source masked opening close
      return some {
        name := found.header.name
        displayName := (display.bind DisplayAnnotation.label).getD found.header.name
        documentation := (Documentation.ofLines leading.documentationLines).description
        moduleName
        package
        displayAnnotation := display
        functions }

/-- The connectors of a source text. -/
def connectorsOfSource (package : PackageName) (moduleName : String) (detail : Detail)
    (source : List Char) : Except Fault (List Connector) := do
  let masked ← mask source
  let connectors ← (headersIn ClassHeader.read? masked).mapM
    (connectorAt mode package moduleName detail source masked)
  return connectors.filterMap id

/-- The connectors of a project, document by document. -/
def connectors (p : Project) (detail : Detail) : Except Fault (List Connector) := do
  let found ← p.documents.mapM fun (m, d) =>
    connectorsOfSource mode p.package m.name detail d.content.toList
  return found.flatten

end

end ConnectorCatalog.Offset
