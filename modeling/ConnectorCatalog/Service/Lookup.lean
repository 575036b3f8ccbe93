import ConnectorCatalog.Service.Basic

/-!
# Looking a connector up

A connector is looked for in several ways, one after the other: in the registry by its identifier
and by its name, in the project around a file, and in the compiled package with its coordinates. The
first way that finds it ends the search; a way that fails is reported and passed over.
-/

namespace ConnectorCatalog

/-- The ways to find a connector. -/
inductive Strategy
  | byId
  | byQualifiedName
  | byLocalFile
  | byPackage
deriving DecidableEq, Repr

namespace Strategy

/-- All ways, in the order in which they are tried. -/
def all : List Strategy := [byId, byQualifiedName, byLocalFile, byPackage]

/-- The request says enough for a way. -/
def applies : Strategy → LookupRequest → Bool
  | byId, r => r.connectorId.any fun id => !id.isEmpty
  | byQualifiedName, r => r.isFullConnector
  | byLocalFile, r => r.targetFile.isSome
  | byPackage, _ => true

/-- Says that a way failed. -/
def operation : Strategy → LookupRequest → String
  | byId, _ => operationFailed lookupMethod
  | byQualifiedName, _ => operationFailed lookupMethod
  | byLocalFile, r => forConnector r
  | byPackage, r => forConnector r
where
  /-- Says that a look-up in sources failed. -/
  forConnector (r : LookupRequest) : String :=
    "Operation '" ++ lookupMethod ++ "' for " ++ r.key ++ ":" ++ r.name ++ " failed!"

end Strategy

/-- The connector found and how, and the ways that failed before. -/
structure Lookup where
  connector : Option Json
  resolvedBy : Option Strategy
  failures : List Failure
deriving Repr

/-- A value that is not null. -/
def Json.nonNull? (j : Json) : Option Json := if j.isNull then none else some j

/-- The first connector with a name. -/
def connectorNamed? (name : String) (connectors : List Connector) : Option Json :=
  (connectors.find? fun c => c.name == name).map Connector.toJson

namespace Service

/-- The compiled package that has the connector, detailed. -/
def packageConnectors (s : Service) (around : Surroundings) (request : LookupRequest) :
    Except ServiceError (List Connector) :=
  let package : PackageName := ⟨request.organization, request.moduleName, request.version⟩
  match around.files.balaPath s.repositories package with
  | .error cause => .error (.project cause)
  | .ok path => around.connectors path .detailed

/-- Looks for a connector in one way. -/
def tryStrategy (s : Service) (around : Surroundings) (request : LookupRequest) :
    Strategy → Exchange (Except ServiceError (Option Json))
  | .byId => do
    let id := request.connectorId.getD ""
    let found ← s.askRegistry around fun r => r.byId s.caller id
    return found.map Json.nonNull?
  | .byQualifiedName => do
    let found ← s.askRegistry around fun r => r.byName s.caller request.qualifiedName
    return found.map Json.nonNull?
  | .byLocalFile =>
    let path := Path.ofString (request.targetFile.getD "")
    return (around.connectors path .summary).map (connectorNamed? request.name)
  | .byPackage =>
    return (s.packageConnectors around request).map (connectorNamed? request.name)

/-- Looks for a connector in some ways, one after the other. -/
def lookupBy (s : Service) (around : Surroundings) (request : LookupRequest) :
    List Strategy → Exchange Lookup
  | [] => return ⟨none, none, []⟩
  | strategy :: rest =>
    if strategy.applies request then do
      match ← s.tryStrategy around request strategy with
      | .ok (some connector) => return ⟨some connector, some strategy, []⟩
      | .ok none => s.lookupBy around request rest
      | .error cause =>
        let found ← s.lookupBy around request rest
        return { found with failures := ⟨strategy.operation request, cause⟩ :: found.failures }
    else s.lookupBy around request rest

/-- Looks a connector up. -/
def lookup (s : Service) (around : Surroundings) (request : LookupRequest) : Exchange Lookup :=
  s.lookupBy around request Strategy.all

end Service

end ConnectorCatalog
