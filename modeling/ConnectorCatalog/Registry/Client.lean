import ConnectorCatalog.Connector.QualifiedName
import ConnectorCatalog.Registry.Body
import ConnectorCatalog.Registry.Error
import ConnectorCatalog.Registry.Network
import ConnectorCatalog.Registry.Status
import ConnectorCatalog.Text.Base64
import ConnectorCatalog.Url.Form
import ConnectorCatalog.Url.Parser

/-!
# The registry

The registry lists the connectors of packages and describes a connector by its identifier or its
name. A client is set up with the registry's URL, a proxy and a token; each question is a request at
a URL below the registry's. Whatever goes wrong comes back as an error that names its cause.
-/

namespace ConnectorCatalog

/-- Who asks the registry: for what platform, and with what distribution. -/
structure Caller where
  platform : String
  version : String
deriving DecidableEq, Repr

/-- A client of the registry. -/
structure Registry where
  baseUrl : String
  proxy : Option Url
  proxyLogin : Option (String × String)
  token : Option String
deriving DecidableEq, Repr

/-- The value of a header that answers to `Basic`. -/
def basicLogin (login : String × String) : String :=
  let text := login.1 ++ ":" ++ login.2
  "Basic " ++ String.ofList (Base64.encode text.toUTF8.toList)

/-- A value that a header can hold: one without control characters other than tabs. -/
def isHeaderValue (value : String) : Bool :=
  value.toList.all fun c => (' ' ≤ c && c.toNat != 127) || c == '\t'

namespace Url

/-- A URL without name and password, and these. They stay where they are if the name is no text. -/
def withoutLogin (u : Url) : Url × Option (String × String) :=
  match u.authority with
  | none => (u, none)
  | some a =>
    match Percent.decodeText? a.username with
    | none => (u, none)
    | some name =>
      let password := if a.password.isEmpty then none else Percent.decodeText? a.password
      if name.isEmpty ∧ password.isNone then (u, none)
      else
        ({ u with authority := some { a with username := [], password := [] } },
          some (name, password.getD ""))

/-- The longest URL that can be asked for, in bytes. -/
def longestText : Nat := 65534

/-- The host can stand in a request. -/
def hasPlainHost (u : Url) : Bool :=
  match u.host? with
  | some (.domain name) => !name.any ['"', '\x60', '\x7b', '\x7d'].contains
  | some _ => true
  | none => false

/-- The URL can be asked for. -/
def isRequestable (u : Url) : Bool :=
  (u.scheme == "http".toList || u.scheme == "https".toList) && u.hasPlainHost
    && u.text.length ≤ longestText

end Url

namespace Registry

/-- Reads the URL of a proxy, which needs a host. A text that lacks a scheme or host is taken for
one behind `http://`. -/
def proxyUrl? (text : String) : Option Url :=
  let hosted (t : Except UrlError UrlText) : Option Url :=
    match t with
    | .ok (.hierarchical u) => if u.host?.isSome then some u else none
    | _ => none
  match UrlText.parse text with
  | .ok t => (hosted (.ok t)).orElse fun _ => hosted (UrlText.parse ("http://" ++ text))
  | .error .noScheme => hosted (UrlText.parse ("http://" ++ text))
  | .error _ => none

/-- Sets up a client. -/
def create (baseUrl : String) (proxy : Proxy) (token : Option String) :
    Except RegistryError Registry :=
  let baseUrl := withoutSlashes baseUrl
  match proxy.url? with
  | none => .ok ⟨baseUrl, none, none, token⟩
  | some text =>
    match proxyUrl? text with
    | none => .error (.invalidProxy text)
    | some url =>
      let given := proxy.username.map fun name => (name, proxy.password.getD "")
      .ok ⟨baseUrl, some url, given.orElse fun _ => url.withoutLogin.2, token⟩

/-- The URL of a question: segments below the registry's URL, and a query. -/
def url (r : Registry) (segments : List String) (pairs : List (String × String)) :
    Except RegistryError Url :=
  match UrlText.parse r.baseUrl with
  | .error cause => .error (.invalidUrl cause)
  | .ok .opaquePath => .error .opaqueUrl
  | .ok (.hierarchical u) => .ok ((u.withSegments (segments.map String.toList)).withPairs pairs)

/-- What a request carries. A header whose value cannot be sent is left out; `login` stands in for a
token. -/
def headers (r : Registry) (caller : Caller) (login : Option (String × String)) :
    List (String × String) :=
  let header (name value : String) : List (String × String) :=
    if isHeaderValue value then [(name, value)] else []
  let agent := "ballerina/" ++ caller.version
  let token := (r.token.map fun t => header "authorization" ("Bearer " ++ t)).getD []
  let login := (login.map fun l => [("authorization", basicLogin l)]).getD []
  [("accept", "application/json")]
    ++ header "ballerina-platform" caller.platform
    ++ [("user-agent", if isHeaderValue agent then agent else serverName)]
    ++ (if token.isEmpty then login else token)
    ++ (r.proxyLogin.map fun l => [("proxy-authorization", basicLogin l)]).getD []

/-- What a server says in place of an answer: the message in the body, which is text whatever its
bytes are, or the words for the status. -/
def statusMessage (response : WebResponse) : String :=
  let fields := [Shape.Field.orNull "message" Shape.string]
  let message := (bodyMembers? "CentralErrorBody" fields (bytesOf (lossyChars response.body))).bind
    fun ms => textMember? ms "message"
  message.getD (statusReason response.status)

/-- What an answer to a question at a URL says; `what` is what was asked for. -/
def interpret {α : Type} (url : Url) (what : String) (read : List UInt8 → Option α)
    (response : WebResponse) : Except RegistryError α :=
  if response.status = 404 then .error (.notFound what)
  else if !isSuccess response.status then
    .error (.status response.status (statusMessage response))
  else
    match read response.body with
    | some x => .ok x
    | none => .error (.unreadable url)

/-- Asks a question at a URL. -/
def get {α : Type} (r : Registry) (caller : Caller) (url : Except RegistryError Url) (what : String)
    (read : List UInt8 → Option α) : Exchange (Except RegistryError α) := do
  match url with
  | .error e => return .error e
  | .ok url =>
    let (url, login) := url.withoutLogin
    if !url.isRequestable then return .error (.unsupported url)
    else
      let route := if r.proxy.isSome then Route.proxied else Route.direct
      match ← Network.send ⟨url, route, r.headers caller login⟩ with
      | none => return .error (.unreachable url)
      | some response => return interpret url what read response

/-- The connectors of a package, as the registry lists them. -/
structure Search where
  connectors : List Json
  count : Int
  offset : Int
  limit : Int
deriving Repr

/-- The fields of a search result. -/
def Search.fields : List Shape.Field :=
  [.optional "connectors" (Shape.list Shape.any), .optional "count" Shape.u64,
    .optional "offset" Shape.u64, .optional "limit" Shape.u64]

/-- Reads a search result. -/
def Search.ofBody? (body : List UInt8) : Option Search := do
  let ms ← bodyMembers? "CentralConnectorListResult" fields body
  let number (name : String) : Int := ((ms.lookup name).bind Json.int?).getD 0
  return ⟨elementsMember ms "connectors", number "count", number "offset", number "limit"⟩

/-- A search result as JSON. -/
def Search.toJson (s : Search) : Json :=
  .object [("connectors", .array s.connectors), ("count", .ofInt s.count),
    ("offset", .ofInt s.offset), ("limit", .ofInt s.limit)]

/-- The part of the registry that knows connectors. -/
def connectorsSegment : String := "connectors"

/-- Lists the connectors of a package, or of all packages for want of a name. -/
def search (r : Registry) (caller : Caller) (package : String) :
    Exchange (Except RegistryError Search) :=
  let pairs := if package.isEmpty then [] else [("package", package)]
  r.get caller (r.url [connectorsSegment] pairs) package Search.ofBody?

/-- Describes the connector with an identifier. -/
def byId (r : Registry) (caller : Caller) (id : String) : Exchange (Except RegistryError Json) :=
  r.get caller (r.url [connectorsSegment, id] []) id bodyValue?

/-- The query for a qualified name. -/
def namePairs (q : QualifiedName) : List (String × String) :=
  [("org", q.organization), ("package", q.package), ("module", q.module), ("version", q.version),
    ("connector", q.name)]

/-- Describes the connector with a name. -/
def byName (r : Registry) (caller : Caller) (q : QualifiedName) :
    Exchange (Except RegistryError Json) :=
  r.get caller (r.url [connectorsSegment, "info"] (namePairs q)) q.text bodyValue?

end Registry

end ConnectorCatalog
