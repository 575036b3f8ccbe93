import ConnectorCatalog.Connector.QualifiedName
import ConnectorCatalog.Connector.Wire

/-!
# Requests

What a client asks for, and their JSON form. A client may list the connectors of a package in the
registry together with those around a file, or look one connector up by whatever it knows of it.
Every field may be left out.
-/

namespace ConnectorCatalog

/-- Asks for the connectors of a package, or of all packages, and those around a file. -/
structure ListRequest where
  packageName : String
  targetFile : String
deriving DecidableEq, Repr

namespace ListRequest

/-- The fields of a list request. -/
def fields : List Shape.Field :=
  [.optional "packageName" Shape.string, .optional "targetFile" Shape.string]

/-- A list request as JSON. -/
def toJson (r : ListRequest) : Json :=
  .object [("packageName", .string r.packageName), ("targetFile", .string r.targetFile)]

/-- Reads a list request. -/
def ofJson (j : Json) : Except Mismatch ListRequest := do
  let ms ← Shape.members "ConnectorListRequest" fields j
  .ok ⟨textMember ms "packageName", textMember ms "targetFile"⟩

end ListRequest

/-- The connectors that the registry has, as it describes them, and those around a file. -/
structure ListResponse where
  fromRegistry : List Json
  fromProject : List Connector
deriving Repr

namespace ListResponse

/-- The fields of a list response. -/
def fields : List Shape.Field :=
  [.optional "central" (Shape.list Shape.any), .optional "local" (Shape.list Connector.shape)]

/-- A list response as JSON. -/
def toJson (r : ListResponse) : Json :=
  .object [("central", .array r.fromRegistry),
    ("local", .array (r.fromProject.map Connector.toJson))]

/-- Reads a list response. -/
def ofJson (j : Json) : Except Mismatch ListResponse := do
  let ms ← Shape.members "ConnectorListResponse" fields j
  let connectors ← readElements Connector.ofJson ms "local"
  .ok ⟨elementsMember ms "central", connectors⟩

end ListResponse

/-- Asks for one connector. -/
structure LookupRequest where
  connectorId : Option String
  isFullConnector : Bool
  organization : String
  packageName : String
  moduleName : String
  version : String
  name : String
  targetFile : Option String
deriving DecidableEq, Repr

namespace LookupRequest

/-- The fields of a lookup request. -/
def fields : List Shape.Field :=
  [.optionalOrNull "connectorId" Shape.string,
    ⟨"isFullConnector", ["fullConnector"], .optional, Shape.bool⟩,
    .optional "orgName" Shape.string, .optional "packageName" Shape.string,
    .optional "moduleName" Shape.string, .optional "version" Shape.string,
    .optional "name" Shape.string, .optionalOrNull "targetFile" Shape.string]

/-- A lookup request as JSON. -/
def toJson (r : LookupRequest) : Json :=
  .object [("connectorId", .ofOption (r.connectorId.map .string)),
    ("isFullConnector", .bool r.isFullConnector), ("orgName", .string r.organization),
    ("packageName", .string r.packageName), ("moduleName", .string r.moduleName),
    ("version", .string r.version), ("name", .string r.name),
    ("targetFile", .ofOption (r.targetFile.map .string))]

/-- Reads a lookup request. -/
def ofJson (j : Json) : Except Mismatch LookupRequest := do
  let ms ← Shape.members "ConnectorRequest" fields j
  .ok { connectorId := textMember? ms "connectorId"
        isFullConnector := truthMember ms "isFullConnector"
        organization := textMember ms "orgName"
        packageName := textMember ms "packageName"
        moduleName := textMember ms "moduleName"
        version := textMember ms "version"
        name := textMember ms "name"
        targetFile := textMember? ms "targetFile" }

/-- The connector's name in the registry. -/
def qualifiedName (r : LookupRequest) : QualifiedName :=
  ⟨r.organization, r.packageName, r.moduleName, r.version, r.name⟩

/-- The key of the module's version. -/
def key (r : LookupRequest) : String := moduleKey r.organization r.moduleName r.version

end LookupRequest

end ConnectorCatalog
