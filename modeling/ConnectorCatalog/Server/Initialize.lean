import ConnectorCatalog.Server.Capabilities
import ConnectorCatalog.Url.Parser

/-!
# Initialization

What a client says of itself when a session begins. Only the options for the server are kept.
-/

namespace ConnectorCatalog

/-- A text that is a URL. -/
def urlShape : Shape
  | .string s =>
    match UrlText.parse s with
    | .ok _ => .ok ()
    | .error e => .error (.invalidValue (.string s) e.message)
  | j => .error (.invalidType j.found "a string representing an URL")

namespace InitializeParams

/-- A folder of the workspace. -/
def workspaceFolder : Shape :=
  Shape.record "WorkspaceFolder" [.required "uri" urlShape, .required "name" Shape.string]

/-- The name of the client. -/
def clientInfo : Shape :=
  Shape.record "ClientInfo" [.required "name" Shape.string, .orNull "version" Shape.string]

/-- The fields of the parameters. -/
def fields : List Shape.Field := [
  .orNull "processId" Shape.u32,
  .orNull "rootPath" Shape.string,
  .optionalOrNull "rootUri" urlShape,
  .orNull "initializationOptions" Shape.any,
  .required "capabilities" ClientCapabilities.shape,
  .optionalOrNull "trace" (Shape.oneOf ["off", "messages", "verbose"]),
  .orNull "workspaceFolders" (Shape.list workspaceFolder),
  .orNull "clientInfo" clientInfo,
  .orNull "locale" Shape.string]

/-- Reads the parameters and gives the options for the server, if they are there and not null. -/
def options? (j : Json) : Except Mismatch (Option Json) := do
  let ms ← Shape.members "InitializeParams" fields j
  .ok ((ms.lookup "initializationOptions").bind fun o => if o.isNull then none else some o)

end InitializeParams

end ConnectorCatalog
