import ConnectorCatalog.Connector.Signature
import ConnectorCatalog.Project.Basic
import ConnectorCatalog.Source.Leading

/-!
# Connectors of a project

Every class at the top level of a document that is both `public` and `client` is a connector. Its
functions are the `init`, remote and resource methods at the top level of its body, and are left out
of a summary.
-/

namespace ConnectorCatalog

/-- How much of a connector is described. -/
inductive Detail
  | summary
  | detailed
deriving DecidableEq, Repr

/-- What `read?` finds at the first place where it finds something. -/
def firstFound? {β : Type} (read? : List Char → Option β) : List Char → Option β
  | [] => read? []
  | c :: r => (read? (c :: r)).orElse fun _ => firstFound? read? r

/-- The text in quotes after `field` and a colon, at the beginning of `s`. -/
def quotedField? (field : String) (s : List Char) : Option String :=
  match (field.toList.isPrefixOf? s).map trimStart with
  | some (':' :: r) =>
    match trimStart r with
    | '"' :: r => (cutAtFirst (· == '"') r).map fun (text, _) => String.ofList text
    | _ => none
  | _ => none

/-- The display annotation among some annotations. Its fields are looked for up to the first closing
brace. -/
def DisplayAnnotation.ofAnnotations? (annotations : List Char) : Option DisplayAnnotation :=
  (cutAround "@display".toList annotations).map fun (_, r) =>
    let body := "@display".toList ++ r.takeWhile (· != '\x7d')
    { label := firstFound? (quotedField? "label") body
      iconPath := firstFound? (quotedField? "iconPath") body }

/-- The name and, for a resource method, the path in a signature. -/
def MethodHeader.nameAndPath (h : MethodHeader) : String × Option String :=
  if "resource" ∈ h.qualifiers then
    match cutAtFirst isBlank h.signature with
    | some (accessor, path) => (String.ofList accessor, some (String.ofList (trim path)))
    | none => (String.ofList h.signature, none)
  else (String.ofList h.signature, none)

/-- The method can be called from outside. -/
def MethodHeader.isCallable (h : MethodHeader) : Bool :=
  h.nameAndPath.1 == "init" || "remote" ∈ h.qualifiers || "resource" ∈ h.qualifiers

/-- The function with header `o.header`, where `lead` holds the cells from the start of the document
to the class body that `o` was found in. -/
def ConnectorFunction.ofOccurrence? (lead : List Cell) (o : Occurrence MethodHeader) :
    Option ConnectorFunction :=
  if nesting Cell.shown o.before = 0 ∧ o.header.isCallable then
    (enclosed? Cell.shown o.rest).map fun (list, after) =>
      let docs := Documentation.ofLines (Leading.ofBefore (lead ++ o.before)).documentationLines
      let (name, path) := o.header.nameAndPath
      { name
        resourcePath := path
        qualifiers := o.header.qualifiers
        documentation := docs.description
        parameters := parametersOf docs list
        returnType := (returnTypeOf after).map fun type => ⟨type, docs.returns⟩ }
  else none

/-- The callable functions in a class body; `lead` holds all cells before it. -/
def functionsOf (lead body : List Cell) : List ConnectorFunction :=
  (occurrences MethodHeader.read? body).filterMap (ConnectorFunction.ofOccurrence? lead)

/-- A connector is a class that is public and a client. -/
def ClassHeader.isConnector (h : ClassHeader) : Bool :=
  "client" ∈ h.qualifiers && "public" ∈ h.qualifiers

/-- The connector with header `o.header`, if that is one at top level and its body is closed. -/
def Connector.ofOccurrence? (package : PackageName) (moduleName : String) (detail : Detail)
    (source : List Cell) (o : Occurrence ClassHeader) : Option Connector :=
  if nesting Cell.shown o.before = 0 ∧ o.header.isConnector then
    (enclosed? Cell.shown o.rest).map fun (body, _) =>
      let leading := Leading.ofBefore o.before
      let display := DisplayAnnotation.ofAnnotations? leading.annotationText
      let lead := source.take (source.length - o.rest.length + 1)
      { name := o.header.name
        displayName := (display.bind DisplayAnnotation.label).getD o.header.name
        documentation := (Documentation.ofLines leading.documentationLines).description
        moduleName
        package
        displayAnnotation := display
        functions := match detail with
          | .summary => []
          | .detailed => functionsOf lead body }
  else none

/-- The connectors of a source text. -/
def connectorsOfSource (package : PackageName) (moduleName : String) (detail : Detail)
    (content : String) : List Connector :=
  let source := cells content.toList
  (occurrences ClassHeader.read? source).filterMap
    (Connector.ofOccurrence? package moduleName detail source)

/-- The connectors of a project, document by document. -/
def Project.connectors (p : Project) (detail : Detail) : List Connector :=
  p.documents.flatMap fun (m, d) => connectorsOfSource p.package m.name detail d.content

end ConnectorCatalog
