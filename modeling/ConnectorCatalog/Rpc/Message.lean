import ConnectorCatalog.Json.Shape
import ConnectorCatalog.Number.Range

/-!
# JSON-RPC messages

A call names a method and may carry parameters and an identifier. A call with an identifier asks for
a reply, be it a result or an error; a call without one does not. A null identifier is one as well.
-/

namespace ConnectorCatalog.Rpc

/-- What tells calls apart. -/
inductive Id
  | number (value : Int)
  | text (value : String)
  | null
deriving DecidableEq, Repr

/-- An identifier as JSON. -/
def Id.toJson : Id → Json
  | .number n => .ofInt n
  | .text s => .string s
  | .null => .null

/-- The identifier that a value is: an integer of 64 bits, a string or null. -/
def Id.ofJson? : Json → Option Id
  | .number (.integer n) => if IntegerRange.signed64.has n then some (.number n) else none
  | .string s => some (.text s)
  | .null => some .null
  | _ => none

/-- A call of a method. -/
structure Call where
  method : String
  params : Option Json
  id : Option Id
deriving Repr

namespace Call

/-- The version of the protocol. -/
def version : String := "2.0"

/-- A value that names the version of the protocol. -/
def versionShape : Shape
  | .string s => if s = version then .ok () else .error (.other "expected JSON-RPC version \"2.0\"")
  | j => Shape.string j

/-- A value that is an identifier. -/
def idShape : Shape := fun j =>
  if (Id.ofJson? j).isSome then .ok ()
  else .error (.other "data did not match any variant of untagged enum Id")

/-- The fields of a call. -/
def fields : List Shape.Field :=
  [.required "jsonrpc" versionShape, .optional "method" Shape.string, .optional "params" Shape.any,
    .optional "id" idShape]

/-- Reads a call. -/
def ofJson (j : Json) : Except Mismatch Call := do
  let ms ← Shape.members "Request" fields j
  .ok ⟨textMember ms "method", ms.lookup "params", (ms.lookup "id").bind Id.ofJson?⟩

end Call

/-- Why a call is refused. -/
inductive Error
  | notInitialized
  | parseError
  | invalidRequest
  | unknownMethod (name : String)
  | methodNotFound
  | missingParams
  | unexpectedParams (params : Json)
  | invalidParams (cause : Mismatch)
deriving Repr

namespace Error

/-- The code of an error. -/
def code : Error → Int
  | notInitialized => -32002
  | parseError => -32700
  | invalidRequest => -32600
  | unknownMethod _ => -32601
  | methodNotFound => -32601
  | missingParams => -32602
  | unexpectedParams _ => -32602
  | invalidParams _ => -32602

/-- The words for an error. -/
def message : Error → String
  | notInitialized => "Server not initialized"
  | parseError => "Parse error"
  | invalidRequest => "Invalid request"
  | unknownMethod _ => "Method not found"
  | methodNotFound => "Method not found"
  | missingParams => "Missing params field"
  | unexpectedParams params => "Unexpected params: " ++ String.ofList params.compact
  | invalidParams cause => cause.message

/-- An error as JSON. A method that is not known is named. -/
def toJson (e : Error) : Json :=
  let data := match e with
    | unknownMethod name => [("data", .string name)]
    | _ => []
  .ofMembers ([("code", .ofInt e.code), ("message", .string e.message)] ++ data)

end Error

/-- A reply to a call. -/
inductive Reply
  | result (id : Id) (value : Json)
  | error (id : Id) (cause : Error)
deriving Repr

/-- A reply as JSON. -/
def Reply.toJson : Reply → Json
  | .result id value =>
    .ofMembers [("jsonrpc", .string Call.version), ("result", value), ("id", id.toJson)]
  | .error id cause =>
    .ofMembers [("jsonrpc", .string Call.version), ("error", cause.toJson), ("id", id.toJson)]

/-- A call that asks for no reply, as JSON. -/
def notificationJson (method : String) (params : Json) : Json :=
  .ofMembers [("jsonrpc", .string Call.version), ("method", .string method), ("params", params)]

/-- Reads the only parameter of a method. -/
def readParams {α : Type} (read : Json → Except Mismatch α) (params : Option Json) :
    Except Error α :=
  match params with
  | none => .error .missingParams
  | some j => (read j).mapError .invalidParams

/-- A method without parameters. -/
def noParams (params : Option Json) : Except Error Unit :=
  match params with
  | none => .ok ()
  | some j => .error (.unexpectedParams j)

end ConnectorCatalog.Rpc
