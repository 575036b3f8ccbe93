import ConnectorCatalog.Url.Basic

/-!
# The network

What a registry sees of a client, and what the client hears of it. The network is a queue of
replies: every request that gets through takes the next one, and a server with nothing left to say
knows of nothing. A network that is down lets no request through.
-/

namespace ConnectorCatalog

/-- The way that a request takes. -/
inductive Route
  | direct
  | proxied
deriving DecidableEq, Repr

/-- A request for what is at a URL. -/
structure WebRequest where
  url : Url
  route : Route
  headers : List (String × String)
deriving DecidableEq, Repr

/-- What a server answers. -/
structure WebResponse where
  status : Nat
  body : List UInt8
deriving DecidableEq, Repr

/-- What comes of a request that gets through: an answer, or the end of the connection. -/
inductive Reply
  | answered (response : WebResponse)
  | dropped
deriving DecidableEq, Repr

/-- The replies to come and the requests that got through. -/
structure Network where
  isUp : Bool
  replies : List Reply
  sent : List WebRequest
deriving DecidableEq, Repr

/-- A computation that may use the network. -/
abbrev Exchange := StateM Network

namespace Network

/-- A network that lets nothing through. -/
def down : Network := ⟨false, [], []⟩

/-- A network with some replies to come. -/
def ofReplies (replies : List Reply) : Network := ⟨true, replies, []⟩

/-- The answer of a server that knows of nothing. -/
def nothingThere : WebResponse := ⟨404, []⟩

/-- Sends a request. There is no answer if the connection fails. -/
def send (request : WebRequest) : Exchange (Option WebResponse) := fun n =>
  if !n.isUp then (none, n)
  else
    let n := { n with sent := n.sent ++ [request] }
    match n.replies with
    | [] => (some nothingThere, n)
    | .dropped :: rest => (none, { n with replies := rest })
    | .answered response :: rest => (some response, { n with replies := rest })

end Network

end ConnectorCatalog
