import ConnectorCatalog.Connector.Basic

/-!
# Projects

A project is a package loaded from its sources: modules in order, each with its documents in order.
-/

namespace ConnectorCatalog

/-- The written form `organization/name:version`. -/
def PackageName.text (p : PackageName) : String :=
  p.organization ++ "/" ++ p.name ++ ":" ++ p.version

/-- How a project was found. -/
inductive ProjectKind
  | build
  | singleFile
  | bala
deriving DecidableEq, Repr

/-- A source file. -/
structure Document where
  name : String
  path : String
  content : String
deriving DecidableEq, Repr

/-- A module of a package. -/
structure Module where
  name : String
  documents : List Document
deriving DecidableEq, Repr

/-- A loaded package. -/
structure Project where
  kind : ProjectKind
  sourceRoot : String
  package : PackageName
  modules : List Module
deriving DecidableEq, Repr

/-- The documents of a project, each with its module. -/
def Project.documents (p : Project) : List (Module × Document) :=
  p.modules.flatMap fun m => m.documents.map fun d => (m, d)

end ConnectorCatalog
