import ConnectorCatalog.Connector.Basic
import ConnectorCatalog.Json.Shape

/-!
# Connectors as JSON

The JSON form of connectors and their parts. Fields that are absent are left out, and so is an empty
list of functions; reading takes them back as absent.
-/

namespace ConnectorCatalog

/-- A member that is left out when it is absent. -/
def optionalText (name : String) (text : Option String) : List (String × Json) :=
  match text with
  | some t => [(name, .string t)]
  | none => []

/-- Reads every element of a list by `read`. -/
def readAll {α : Type} (read : Json → Except Mismatch α) : List Json → Except Mismatch (List α)
  | [] => .ok []
  | x :: xs => do
    let a ← read x
    let as ← readAll read xs
    .ok (a :: as)

/-- The elements of a member, each read by `read`. -/
def readElements {α : Type} (read : Json → Except Mismatch α) (members : List (String × Json))
    (name : String) : Except Mismatch (List α) :=
  readAll read (elementsMember members name)

/-- A member read by `read`, if it is there and not null. -/
def readMember? {α : Type} (read : Json → Except Mismatch α) (members : List (String × Json))
    (name : String) : Except Mismatch (Option α) :=
  match members.lookup name with
  | none => .ok none
  | some .null => .ok none
  | some x => some <$> read x

namespace PackageName

/-- The fields of a package. -/
def fields : List Shape.Field :=
  [.required "organization" Shape.string, .required "name" Shape.string,
    .required "version" Shape.string]

/-- A package as JSON. -/
def toJson (p : PackageName) : Json :=
  .object [("organization", .string p.organization), ("name", .string p.name),
    ("version", .string p.version)]

/-- The package with some members. -/
def ofMembers (ms : List (String × Json)) : PackageName :=
  ⟨textMember ms "organization", textMember ms "name", textMember ms "version"⟩

/-- Reads a package. -/
def ofJson (j : Json) : Except Mismatch PackageName :=
  ofMembers <$> Shape.members "ConnectorPackage" fields j

/-- A JSON package. -/
def shape : Shape := Shape.record "ConnectorPackage" fields

end PackageName

namespace DisplayAnnotation

/-- The fields of a display annotation. -/
def fields : List Shape.Field :=
  [.optionalOrNull "label" Shape.string, .optionalOrNull "iconPath" Shape.string]

/-- A display annotation as JSON. -/
def toJson (d : DisplayAnnotation) : Json :=
  .object (optionalText "label" d.label ++ optionalText "iconPath" d.iconPath)

/-- Reads a display annotation. -/
def ofJson (j : Json) : Except Mismatch DisplayAnnotation := do
  let ms ← Shape.members "DisplayAnnotation" fields j
  .ok ⟨textMember? ms "label", textMember? ms "iconPath"⟩

/-- A JSON display annotation. -/
def shape : Shape := Shape.record "DisplayAnnotation" fields

end DisplayAnnotation

namespace Parameter

/-- The fields of a parameter. -/
def fields : List Shape.Field :=
  [.required "name" Shape.string, .required "typeName" Shape.string,
    .required "defaultable" Shape.bool, .optionalOrNull "documentation" Shape.string]

/-- A parameter as JSON. -/
def toJson (p : Parameter) : Json :=
  .object ([("name", .string p.name), ("typeName", .string p.typeName),
    ("defaultable", .bool p.defaultable)] ++ optionalText "documentation" p.documentation)

/-- Reads a parameter. -/
def ofJson (j : Json) : Except Mismatch Parameter := do
  let ms ← Shape.members "Parameter" fields j
  .ok ⟨textMember ms "name", textMember ms "typeName", truthMember ms "defaultable",
    textMember? ms "documentation"⟩

/-- A JSON parameter. -/
def shape : Shape := Shape.record "Parameter" fields

end Parameter

namespace ReturnType

/-- The fields of a return type. -/
def fields : List Shape.Field :=
  [.required "typeName" Shape.string, .optionalOrNull "documentation" Shape.string]

/-- A return type as JSON. -/
def toJson (t : ReturnType) : Json :=
  .object ([("typeName", .string t.typeName)] ++ optionalText "documentation" t.documentation)

/-- Reads a return type. -/
def ofJson (j : Json) : Except Mismatch ReturnType := do
  let ms ← Shape.members "ReturnType" fields j
  .ok ⟨textMember ms "typeName", textMember? ms "documentation"⟩

/-- A JSON return type. -/
def shape : Shape := Shape.record "ReturnType" fields

end ReturnType

namespace ConnectorFunction

/-- The fields of a function. -/
def fields : List Shape.Field :=
  [.required "name" Shape.string, .optionalOrNull "resourcePath" Shape.string,
    .required "qualifiers" (Shape.list Shape.string), .optionalOrNull "documentation" Shape.string,
    .required "parameters" (Shape.list Parameter.shape),
    .optionalOrNull "returnType" ReturnType.shape]

/-- A function as JSON. -/
def toJson (f : ConnectorFunction) : Json :=
  .object ([("name", .string f.name)] ++ optionalText "resourcePath" f.resourcePath
    ++ [("qualifiers", .ofStrings f.qualifiers)] ++ optionalText "documentation" f.documentation
    ++ [("parameters", .array (f.parameters.map Parameter.toJson))]
    ++ (f.returnType.map fun t => ("returnType", t.toJson)).toList)

/-- Reads a function. -/
def ofJson (j : Json) : Except Mismatch ConnectorFunction := do
  let ms ← Shape.members "ConnectorFunction" fields j
  let parameters ← readElements Parameter.ofJson ms "parameters"
  let returnType ← readMember? ReturnType.ofJson ms "returnType"
  .ok { name := textMember ms "name"
        resourcePath := textMember? ms "resourcePath"
        qualifiers := (elementsMember ms "qualifiers").filterMap Json.text?
        documentation := textMember? ms "documentation"
        parameters
        returnType }

/-- A JSON function. -/
def shape : Shape := Shape.record "ConnectorFunction" fields

end ConnectorFunction

namespace Connector

/-- The fields of a connector. -/
def fields : List Shape.Field :=
  [.required "name" Shape.string, .required "displayName" Shape.string,
    .optionalOrNull "documentation" Shape.string, .required "moduleName" Shape.string,
    .required "package" PackageName.shape,
    .optionalOrNull "displayAnnotation" DisplayAnnotation.shape,
    .optional "functions" (Shape.list ConnectorFunction.shape)]

/-- A connector as JSON. -/
def toJson (c : Connector) : Json :=
  .object ([("name", .string c.name), ("displayName", .string c.displayName)]
    ++ optionalText "documentation" c.documentation
    ++ [("moduleName", .string c.moduleName), ("package", c.package.toJson)]
    ++ (c.displayAnnotation.map fun d => ("displayAnnotation", d.toJson)).toList
    ++ (if c.functions.isEmpty then []
        else [("functions", .array (c.functions.map ConnectorFunction.toJson))]))

/-- Reads a connector. -/
def ofJson (j : Json) : Except Mismatch Connector := do
  let ms ← Shape.members "Connector" fields j
  let package ← readMember? PackageName.ofJson ms "package"
  let displayAnnotation ← readMember? DisplayAnnotation.ofJson ms "displayAnnotation"
  let functions ← readElements ConnectorFunction.ofJson ms "functions"
  .ok { name := textMember ms "name"
        displayName := textMember ms "displayName"
        documentation := textMember? ms "documentation"
        moduleName := textMember ms "moduleName"
        package := package.getD ⟨"", "", ""⟩
        displayAnnotation
        functions }

/-- A JSON connector. -/
def shape : Shape := Shape.record "Connector" fields

end Connector

end ConnectorCatalog
