import ConnectorCatalog.Service.Basic

/-!
# Listing connectors

A listing has the connectors of a package in the registry and those of the project around a file.
Each source fails on its own and then gives no connectors.
-/

namespace ConnectorCatalog

/-- The connectors found, and the sources that failed. -/
structure Listing where
  response : ListResponse
  failures : List Failure
deriving Repr

namespace Service

/-- What a source gives, and its failure. -/
def settle {α : Type} (found : Except ServiceError (List α)) : List α × List Failure :=
  match found with
  | .ok xs => (xs, [])
  | .error cause => ([], [⟨operationFailed listMethod, cause⟩])

/-- Lists connectors. -/
def list (s : Service) (around : Surroundings) (request : ListRequest) : Exchange Listing := do
  let result ← s.askRegistry around fun r => r.search s.caller request.packageName
  let (fromRegistry, registryFailures) := settle (result.map Registry.Search.connectors)
  let (fromProject, projectFailures) :=
    settle (around.connectors (Path.ofString request.targetFile) .summary)
  return ⟨⟨fromRegistry, fromProject⟩, registryFailures ++ projectFailures⟩

end Service

end ConnectorCatalog
