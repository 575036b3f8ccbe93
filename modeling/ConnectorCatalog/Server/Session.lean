import ConnectorCatalog.Rpc.Message
import ConnectorCatalog.Server.Method
import ConnectorCatalog.Service.List
import ConnectorCatalog.Service.Lookup

/-!
# Sessions

A session serves one client. It begins with an initialization that succeeds, which fixes the service
that answers, and ends with a shutdown. Before and after that, calls are refused. Sources that fail
are told to the client beside the answer, each in a message of its own.
-/

namespace ConnectorCatalog

/-- How far a session has come. -/
inductive Phase
  | waiting
  | running
  | shutDown
  | exited
deriving DecidableEq, Repr

/-- A session: its service, and whether the client's options may change that. -/
structure Session where
  phase : Phase
  service : Service
  isConfigurable : Bool
deriving DecidableEq, Repr

/-- What a call brings the client: a reply, if it asks for one, and messages before that. -/
structure Answer where
  reply : Option Rpc.Reply
  notifications : List Json
deriving Repr

namespace Answer

/-- Nothing at all. -/
def silence : Answer := ⟨none, []⟩

/-- A refusal, if the call asks for a reply. -/
def refuse (id : Option Rpc.Id) (cause : Rpc.Error) : Answer := ⟨id.map fun i => .error i cause, []⟩

end Answer

/-- How much a message to the client matters. -/
inductive MessageKind
  | error
  | info
deriving DecidableEq, Repr

/-- The number of a kind of message. -/
def MessageKind.code : MessageKind → Nat
  | .error => 1
  | .info => 3

/-- A message to the client. -/
def logMessage (kind : MessageKind) (text : String) : Json :=
  Rpc.notificationJson "window/logMessage"
    (.ofMembers [("type", .ofNat kind.code), ("message", .string text)])

/-- The messages for some failures. -/
def failureMessages (failures : List Failure) : List Json :=
  failures.map fun f => logMessage .error f.message

namespace Session

/-- A session whose service is set up from the client's options when it begins. -/
def configurable (env : Environment) : Session := ⟨.waiting, .ofConfig .default env, true⟩

/-- A session with a given service. -/
def withService (service : Service) : Session := ⟨.waiting, service, false⟩

/-- What the server says of itself. -/
def welcome : Json :=
  .ofMembers [("capabilities", .ofMembers []),
    ("serverInfo", .ofMembers [("name", .string serverName), ("version", .string serverVersion)])]

/-- The service for a client's options; options that cannot be read count as none. -/
def configured (s : Session) (env : Environment) (options : Option Json) : Service :=
  if s.isConfigurable then
    match options.map Config.ofJson with
    | some (.ok config) => .ofConfig config env
    | _ => .ofConfig .default env
  else s.service

/-- Why a call is refused in a phase, if it is. -/
def refusal? : Phase → Option Rpc.Error
  | .waiting => some .notInitialized
  | .running => none
  | .shutDown => some .invalidRequest
  | .exited => some .invalidRequest

/-- Answers a call in a running session by `respond`, and refuses it otherwise. -/
def whileRunning (s : Session) (id : Option Rpc.Id) (respond : Exchange (Answer × Session)) :
    Exchange (Answer × Session) :=
  match refusal? s.phase with
  | some cause => return (.refuse id cause, s)
  | none => respond

/-- Answers a request. Without an identifier it has no effect; with parameters that do not fit it is
refused. -/
def request {α : Type} (s : Session) (id : Option Rpc.Id) (params : Except Rpc.Error α)
    (respond : Rpc.Id → α → Exchange (Answer × Session)) : Exchange (Answer × Session) :=
  match id, params with
  | none, _ => return (.silence, s)
  | some id, .error cause => return (.refuse (some id) cause, s)
  | some id, .ok x => respond id x

/-- Begins the session. -/
def start (s : Session) (around : Surroundings) (call : Rpc.Call) : Exchange (Answer × Session) :=
  if s.phase = .waiting then
    s.request call.id (Rpc.readParams InitializeParams.options? call.params) fun id options =>
      return (⟨some (.result id welcome), [logMessage .info "LSP server initializing"]⟩,
        { s with phase := .running, service := s.configured around.environment options })
  else return (.refuse call.id .invalidRequest, s)

/-- Hears that the client is ready. -/
def started (s : Session) (call : Rpc.Call) : Exchange (Answer × Session) :=
  s.whileRunning call.id (
    let shape := Shape.record "InitializedParams" []
    match call.id, Rpc.readParams shape call.params with
    | some id, _ => return (.refuse (some id) .invalidRequest, s)
    | none, .error _ => return (.silence, s)
    | none, .ok _ => return (⟨none, [logMessage .info "LSP server initialized"]⟩, s))

/-- Ends the session, however the call is put. -/
def shutdown (s : Session) (call : Rpc.Call) : Exchange (Answer × Session) :=
  s.whileRunning call.id (
    let s := { s with phase := .shutDown }
    s.request call.id (Rpc.noParams call.params) fun id _ =>
      return (⟨some (.result id .null), [logMessage .info "LSP server shutting down"]⟩, s))

/-- Lists connectors. -/
def list (s : Session) (around : Surroundings) (call : Rpc.Call) : Exchange (Answer × Session) :=
  s.whileRunning call.id
    (s.request call.id (Rpc.readParams ListRequest.ofJson call.params) fun id request => do
      let listing ← s.service.list around request
      return (⟨some (.result id listing.response.toJson), failureMessages listing.failures⟩, s))

/-- Looks a connector up. -/
def lookup (s : Session) (around : Surroundings) (call : Rpc.Call) : Exchange (Answer × Session) :=
  s.whileRunning call.id
    (s.request call.id (Rpc.readParams LookupRequest.ofJson call.params) fun id request => do
      let found ← s.service.lookup around request
      return (⟨some (.result id (.ofOption found.connector)), failureMessages found.failures⟩, s))

/-- Refuses a notification that is put as a request. -/
def notification (s : Session) (call : Rpc.Call) : Answer × Session :=
  (.refuse call.id .invalidRequest, s)

/-- The name is one that a server may ignore. -/
def isIgnorable (name : String) : Bool := "$/".toList.isPrefixOf name.toList

/-- Answers a call in a session that has not been left. -/
def respond (s : Session) (around : Surroundings) (call : Rpc.Call) : Exchange (Answer × Session) :=
  match Method.ofName call.method with
  | .start => s.start around call
  | .started => s.started call
  | .shutdown => s.shutdown call
  | .exit => return (.silence, { s with phase := .exited })
  | .cancel => return s.notification call
  | .list => s.list around call
  | .lookup => s.lookup around call
  | .request shape =>
    s.whileRunning call.id (s.request call.id (Rpc.readParams shape call.params) fun id _ =>
      return (.refuse (some id) .methodNotFound, s))
  | .notification => s.whileRunning call.id (return s.notification call)
  | .unknown =>
    let id := if isIgnorable call.method then none else call.id
    return (.refuse id (.unknownMethod call.method), s)

/-- Answers a call, or says that the session has been left. -/
def handle (s : Session) (around : Surroundings) (call : Rpc.Call) :
    Exchange (Option Answer × Session) := do
  if s.phase = .exited then return (none, s)
  else
    let (answer, s) ← s.respond around call
    return (some answer, s)

/-- The words for a session that has been left. -/
def exitedMessage : String := "language server has exited"

end Session

end ConnectorCatalog
