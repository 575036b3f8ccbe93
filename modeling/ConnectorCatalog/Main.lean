import ConnectorCatalog.CommandLine
import ConnectorCatalog.Server.Framing
import ConnectorCatalog.Server.Log

/-!
# The program

Everything here reads or writes; what is written is decided elsewhere. The program sees the files
that a request names and the manifests and metadata above them, looks at them anew for each request,
and has no way to the network, so that a registry it asks is reported as out of reach.
-/

namespace ConnectorCatalog.Program

/-- The names of the variables that the program heeds. -/
def variableNames : List String :=
  ["HOME", "XDG_DATA_HOME", "BALLERINA_HOME_DIR", "BALLERINA_VERSION", "BALLERINA_DEV_CENTRAL",
    "BALLERINA_STAGE_CENTRAL", "BALLERINA_CENTRAL_ACCESS_TOKEN"]

/-- The environment as far as the program heeds it. -/
def environment : IO Environment := do
  let found ← variableNames.mapM fun name => return (← IO.getEnv name).map fun value => (name, value)
  return found.filterMap id

/-- What stands at a path, if it can be seen. -/
def look (path : String) : IO (Option FileNode) := do
  try
    return some (.file (.ofBytes (← IO.FS.readBinFile path).toList))
  catch
    | .inappropriateType .. => return some .directory
    | _ => return none

/-- The tree with what stands at a path. -/
def see (t : FileTree) (path : Path) : IO FileTree := do
  match ← look (String.ofList path) with
  | some (.file content) => return t.writeFile (t.placeOf path) content
  | some .directory => return t.makeDirectories (t.placeOf path)
  | none => return t

/-- The paths that a request about a file looks at by name. -/
def pathsAround (path : Path) : List Path :=
  path :: path.ancestors.flatMap fun dir =>
    [dir.child manifestName, dir.child metadataName, dir.child modulesName]

/-- What some paths lead to, and the environment. -/
def surroundings (env : Environment) (paths : List Path) : IO Surroundings := do
  return ⟨← paths.foldlM see .empty, env⟩

/-- The paths that a call looks at by name: those around its file and the settings. -/
def pathsOf (service : Service) (call : Rpc.Call) : List Path :=
  let file := (call.params.bind fun params => params.member? "targetFile").bind Json.text?
  service.settingsPath :: (file.toList.flatMap fun text => pathsAround (Path.ofString text))

/-- Writes a message for the client. -/
def send (message : Json) : IO Unit := do
  let output ← IO.getStdout
  output.putStr (Framing.frame message)
  output.flush

/-- Reads the lines of a header up to the empty one behind them; there is none at the end of the
input. -/
partial def readHeader? (input : IO.FS.Stream) : IO (Option (List String)) := do
  let line ← input.getLine
  if line.isEmpty then return none
  if line.trimAscii.isEmpty then return some []
  return (← readHeader? input).map (line :: ·)

/-- Reads a number of bytes, fewer at the end of the input. -/
partial def readBytes (input : IO.FS.Stream) (count : Nat) : IO ByteArray := do
  if count = 0 then return .empty
  let some : ByteArray ← input.read count.toUSize
  if some.isEmpty then return some
  return some ++ (← readBytes input (count - some.size))

/-- Answers what comes in until the session has been left or the input ends. -/
partial def serve (env : Environment) (session : Session) : IO Unit := do
  let input ← IO.getStdin
  let some header ← readHeader? input | return
  let bytes ← readBytes input ((Framing.contentLength? header).getD 0)
  let incoming := Incoming.ofText ((String.fromUTF8? bytes).getD "")
  let paths := match incoming with
    | .call call => pathsOf session.service call
    | _ => []
  let around ← surroundings env paths
  let ((answer, session), _) := session.receive around incoming .down
  let some answer := answer | return
  answer.notifications.forM send
  answer.reply.forM fun reply => send reply.toJson
  if session.phase = .exited then return
  serve env session

/-- What kept a file from being opened. -/
def fileError : IO.Error → FileError
  | .inappropriateType .. => .isDirectory
  | .noFileOrDirectory .. => .notFound
  | _ => .notDirectory

/-- Opens the log, which stays empty. -/
def openLogFile (env : Environment) : IO (Except FileError Unit) := do
  try
    IO.FS.createDirAll (String.ofList (dataDirectory env))
    let _ ← IO.FS.Handle.mk (String.ofList (logPath env)) .append
    return .ok ()
  catch cause => return .error (fileError cause)

/-- Opens the log and serves a client. -/
def runServer (env : Environment) : IO UInt32 := do
  match ← openLogFile env with
  | .error cause =>
    IO.eprintln cause.message
    return (logErrorCode cause).toUInt32
  | .ok () =>
    serve env (.configurable env)
    return 0

/-- Lists connectors once. -/
def runList (env : Environment) (request : ListRequest) : IO UInt32 := do
  let settings := Config.default.settingsPath env
  let around ← surroundings env (settings :: pathsAround (Path.ofString request.targetFile))
  let ((output, failures), _) := printedListing around request .down
  failures.forM fun failure => IO.eprintln failure.message
  IO.print output
  return 0

/-- Does what the arguments ask for. -/
def run (arguments : List String) : IO UInt32 := do
  let env ← environment
  match Command.parse arguments with
  | .error _ =>
    IO.eprint helpText
    return usageErrorCode.toUInt32
  | .ok .serve => runServer env
  | .ok .version => IO.print versionText; return 0
  | .ok .help => IO.print helpText; return 0
  | .ok .listHelp => IO.print listHelpText; return 0
  | .ok (.list request) => runList env request

end ConnectorCatalog.Program

/-- Runs the program. -/
def main (arguments : List String) : IO UInt32 := ConnectorCatalog.Program.run arguments
