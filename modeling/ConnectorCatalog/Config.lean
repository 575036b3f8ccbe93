import ConnectorCatalog.Files.Path
import ConnectorCatalog.Json.Shape
import ConnectorCatalog.Settings

/-!
# Configuration

What a client may set when it starts the server, and what stands in for options that it leaves out:
environment variables, then built-in values.
-/

namespace ConnectorCatalog

/-- The platform that registry requests and package directories are for. -/
def anyPlatform : String := "any"

/-- The version that stands in for an empty one. -/
def defaultPackageVersion : String := "0.0.0"

/-- The distribution version that the registry is told of by default. -/
def defaultBallerinaVersion : String := "2201.8.0"

/-- The public registry. -/
def productionRegistry : String := "https://api.central.ballerina.io/2.0/registry"

/-- The registry for staging. -/
def stagingRegistry : String := "https://api.staging-central.ballerina.io/2.0/registry"

/-- The registry for development. -/
def developmentRegistry : String := "https://api.dev-central.ballerina.io/2.0/registry"

/-- The name of the server. -/
def serverName : String := "ballerina-connector-lsp"

/-- The version of the server. -/
def serverVersion : String := "0.1.0"

/-- The user's home directory, as the variable for it says. The system's list of users, which may
know one where the variable is missing or empty, is not asked. -/
def Environment.home? (env : Environment) : Option Path :=
  (env.nonempty? "HOME").map Path.ofString

/-- A switch is on when its variable says so in letters of either case. -/
def Environment.isOn (env : Environment) (name : String) : Bool :=
  match env.lookup name with
  | some value => value.toList.map Char.toLower == "true".toList
  | none => false

/-- A text without the slashes at its end. -/
def withoutSlashes (text : String) : String := String.ofList (dropEndWhile (· == '/') text.toList)

/-- The options of a client. -/
structure Config where
  centralUrl : Option String
  ballerinaVersion : Option String
  ballerinaHome : Option String
deriving DecidableEq, Repr

namespace Config

/-- No option is set. -/
def default : Config := ⟨none, none, none⟩

/-- A path as text. -/
def pathShape : Shape
  | .string _ => .ok ()
  | j => .error (.invalidType j.found "path string")

/-- The options by name. -/
def fields : List Shape.Field :=
  [.optionalOrNull "centralUrl" Shape.string, .optionalOrNull "ballerinaVersion" Shape.string,
    .optionalOrNull "ballerinaHome" pathShape]

/-- Reads options. -/
def ofJson (j : Json) : Except Mismatch Config := do
  let ms ← Shape.members "LspConfig" fields j
  .ok ⟨textMember? ms "centralUrl", textMember? ms "ballerinaVersion",
    textMember? ms "ballerinaHome"⟩

/-- The registry: the one that is set, else the one that the environment switches on. -/
def registryUrl (c : Config) (env : Environment) : String :=
  match c.centralUrl.filter fun url => !url.isEmpty with
  | some url => withoutSlashes url
  | none =>
    if env.isOn "BALLERINA_DEV_CENTRAL" then developmentRegistry
    else if env.isOn "BALLERINA_STAGE_CENTRAL" then stagingRegistry
    else productionRegistry

/-- The distribution version that the registry is told of. -/
def reportedVersion (c : Config) (env : Environment) : String :=
  let version := c.ballerinaVersion.orElse fun _ => env.lookup "BALLERINA_VERSION"
  (version.filter fun v => !v.isEmpty).getD defaultBallerinaVersion

/-- The directory that holds the settings and the package repositories. -/
def homeDirectory (c : Config) (env : Environment) : Path :=
  match c.ballerinaHome with
  | some home => Path.ofString home
  | none =>
    match env.nonempty? "BALLERINA_HOME_DIR" with
    | some home => Path.ofString home
    | none =>
      match env.home? with
      | some home => home.child ".ballerina"
      | none => Path.ofString ".ballerina"

/-- The settings file. -/
def settingsPath (c : Config) (env : Environment) : Path :=
  (c.homeDirectory env).child "Settings.toml"

end Config

/-- The directory that holds the server's own data. -/
def dataDirectory (env : Environment) : Path :=
  let base := match env.lookup "XDG_DATA_HOME" with
    | some dir => Path.ofString dir
    | none =>
      match env.home? with
      | some home => home.child ".local/share"
      | none => Path.ofString "."
  base.child serverName

/-- The log file. -/
def logPath (env : Environment) : Path := (dataDirectory env).child "ballerina-connector-lsp.log"

end ConnectorCatalog
