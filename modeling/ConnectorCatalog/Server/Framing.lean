import ConnectorCatalog.Rpc.Message
import ConnectorCatalog.Server.Session

/-!
# Messages on a stream

On a stream every message stands behind a header that gives its length in bytes. What comes in is a
call, or a reply to something that this server never asked and so does not matter; anything else is
answered with an error that names no call.
-/

namespace ConnectorCatalog

namespace Framing

/-- The header of messages that gives their length. -/
def lengthHeader : String := "Content-Length"

/-- A message with its header. -/
def frame (message : Json) : String :=
  let body := String.ofList message.compact
  lengthHeader ++ ": " ++ toString body.utf8ByteSize ++ "\r\n\r\n" ++ body

/-- The length that header lines give. -/
def contentLength? (lines : List String) : Option Nat :=
  lines.findSome? fun line =>
    match cutAtFirst (· == ':') line.toList with
    | some (name, value) =>
      if name.map Char.toLower = lengthHeader.toList.map Char.toLower then
        (String.ofList (trim value)).toNat?
      else none
    | none => none

end Framing

/-- What comes in on a stream. -/
inductive Incoming
  | call (call : Rpc.Call)
  | reply
  | invalid (cause : Rpc.Error)

namespace Incoming

/-- A value that is a reply: one with a result or error, and an identifier. -/
def isReply (j : Json) : Bool :=
  let versioned := (j.member? "jsonrpc").any fun v => (Rpc.Call.versionShape v).toBool
  let identified := (j.member? "id").any fun i => (Rpc.Id.ofJson? i).isSome
  let failed := (j.member? "error").any Json.isObject
  j.isObject && versioned && identified && ((j.member? "result").isSome || failed)

/-- What a value is. -/
def ofJson (j : Json) : Incoming :=
  if isReply j then .reply
  else
    match Rpc.Call.ofJson j with
    | .ok c => .call c
    | .error _ => .invalid .invalidRequest

/-- What a text is. -/
def ofText (text : String) : Incoming :=
  match Json.parse text with
  | .ok j => ofJson j
  | .error _ => .invalid .parseError

end Incoming

/-- Answers what comes in on a stream. -/
def Session.receive (s : Session) (around : Surroundings) (incoming : Incoming) :
    Exchange (Option Answer × Session) :=
  match incoming with
  | .call c => s.handle around c
  | .reply => return (some .silence, s)
  | .invalid cause => return (some (.refuse (some .null) cause), s)

end ConnectorCatalog
