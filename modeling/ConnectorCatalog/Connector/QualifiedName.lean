import ConnectorCatalog.Config
import ConnectorCatalog.Json.Shape

/-!
# Qualified names

The registry knows a connector by its organization, package, module, version and name.
-/

namespace ConnectorCatalog

/-- The name of a connector in the registry. -/
structure QualifiedName where
  organization : String
  package : String
  module : String
  version : String
  name : String
deriving DecidableEq, Repr

namespace QualifiedName

/-- The fields of a qualified name. -/
def fields : List Shape.Field :=
  [.required "org" Shape.string, .required "package" Shape.string, .required "module" Shape.string,
    .required "version" Shape.string, .required "name" Shape.string]

/-- A qualified name as JSON. -/
def toJson (q : QualifiedName) : Json :=
  .object [("org", .string q.organization), ("package", .string q.package),
    ("module", .string q.module), ("version", .string q.version), ("name", .string q.name)]

/-- Reads a qualified name. -/
def ofJson (j : Json) : Except Mismatch QualifiedName := do
  let ms ← Shape.members "ConnectorInfo" fields j
  .ok ⟨textMember ms "org", textMember ms "package", textMember ms "module",
    textMember ms "version", textMember ms "name"⟩

/-- The written form `organization/module:version:name`. -/
def text (q : QualifiedName) : String :=
  q.organization ++ "/" ++ q.module ++ ":" ++ q.version ++ ":" ++ q.name

end QualifiedName

/-- The key of a module's version, the default version standing in for an empty one. -/
def moduleKey (organization module version : String) : String :=
  organization ++ "_" ++ module ++ "_"
    ++ (if version.isEmpty then defaultPackageVersion else version)

end ConnectorCatalog
