import ConnectorCatalog.Connector.Extract
import ConnectorCatalog.Project.Resolve
import ConnectorCatalog.Registry.Client
import ConnectorCatalog.Request
import ConnectorCatalog.Settings.File

/-!
# The connector service

The service knows where the settings, the compiled packages and the registry are. It answers
requests from what it finds there at the time; a source that fails is reported beside the answer and
does not end the request.
-/

namespace ConnectorCatalog

/-- What a request finds: the files and the environment. -/
structure Surroundings where
  files : FileTree
  environment : Environment
deriving Repr

/-- Where the service looks, and what it tells the registry. -/
structure Service where
  settingsPath : Path
  repositories : List Path
  registryUrl : String
  version : String
deriving DecidableEq, Repr

/-- The method that lists connectors. -/
def listMethod : String := "ballerinaConnector/connectors"

/-- The method that looks one connector up. -/
def lookupMethod : String := "ballerinaConnector/connector"

/-- Why a source fails. -/
inductive ServiceError
  | settings (cause : SettingsError)
  | registry (cause : RegistryError)
  | project (cause : ProjectError)
deriving DecidableEq, Repr

/-- The words for a service error. -/
def ServiceError.message : ServiceError → String
  | .settings cause => cause.message
  | .registry cause => cause.message
  | .project cause => cause.message

/-- A source that failed, and in what operation. -/
structure Failure where
  operation : String
  cause : ServiceError
deriving DecidableEq, Repr

/-- The words for a failure. -/
def Failure.message (f : Failure) : String := f.operation ++ " " ++ f.cause.message

/-- Says that a method failed. -/
def operationFailed (method : String) : String := "Operation '" ++ method ++ "' failed!"

namespace Service

/-- The service with some options. -/
def ofConfig (c : Config) (env : Environment) : Service :=
  { settingsPath := c.settingsPath env
    repositories := repositoriesOf (c.homeDirectory env)
    registryUrl := c.registryUrl env
    version := c.reportedVersion env }

/-- Whom the registry takes the service for. -/
def caller (s : Service) : Caller := ⟨anyPlatform, s.version⟩

/-- A client of the registry, set up from the settings as they are now. -/
def registry (s : Service) (around : Surroundings) : Except ServiceError Registry :=
  match around.files.loadSettings s.settingsPath with
  | .error cause => .error (.settings cause)
  | .ok settings =>
    let token := settings.accessToken around.environment
    match Registry.create s.registryUrl settings.proxy token with
    | .error cause => .error (.registry cause)
    | .ok r => .ok r

/-- Asks the registry. -/
def askRegistry {α : Type} (s : Service) (around : Surroundings)
    (question : Registry → Exchange (Except RegistryError α)) :
    Exchange (Except ServiceError α) := do
  match s.registry around with
  | .error e => return .error e
  | .ok r => return (← question r).mapError .registry

end Service

/-- The connectors of the project at a path or around it. -/
def Surroundings.connectors (around : Surroundings) (path : Path) (detail : Detail) :
    Except ServiceError (List Connector) :=
  match around.files.load path with
  | .error cause => .error (.project cause)
  | .ok project => .ok (project.connectors detail)

end ConnectorCatalog
