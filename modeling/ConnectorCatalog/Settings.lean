import ConnectorCatalog.Toml.Parser

/-!
# Settings

A user's settings: the proxy that requests go through and the token that the registry is shown. An
environment variable with a token wins over the file.
-/

namespace ConnectorCatalog

/-- Environment variables with their values. -/
abbrev Environment := List (String × String)

/-- The value of a variable that is set and not empty. -/
def Environment.nonempty? (env : Environment) (name : String) : Option String :=
  (env.lookup name).filter fun value => !value.isEmpty

/-- The environment with a variable set, or unset for want of a value. -/
def Environment.set (env : Environment) (name : String) (value : Option String) : Environment :=
  value.toList.map (fun v => (name, v)) ++ env.filter fun e => e.1 != name

/-- The proxy that requests go through, if it has a host. Port zero stands for none. -/
structure Proxy where
  host : String
  port : UInt16
  username : Option String
  password : Option String
deriving DecidableEq, Repr

/-- No proxy. -/
def Proxy.none : Proxy := ⟨"", 0, .none, .none⟩

/-- The URL of the proxy: the host, behind `http://` if it names no scheme, then the port. -/
def Proxy.url? (p : Proxy) : Option String :=
  if p.host.isEmpty then .none
  else
    let hasScheme := (cutAround "://".toList p.host.toList).isSome
    let host := if hasScheme then p.host else "http://" ++ p.host
    some (if p.port = 0 then host else host ++ ":" ++ toString p.port.toNat)

/-- A user's settings. -/
structure Settings where
  proxy : Proxy
  fileToken : Option String
deriving DecidableEq, Repr

namespace Settings

/-- The settings of a user who has set nothing. -/
def default : Settings := ⟨Proxy.none, .none⟩

/-- The variable that holds a token. -/
def tokenVariable : String := "BALLERINA_CENTRAL_ACCESS_TOKEN"

/-- The settings in a document. A port outside 16 bits counts as none. -/
def ofDocument (d : Toml.Document) : Settings :=
  { proxy :=
      { host := (d.text? "proxy" "host").getD ""
        port := match d.integer? "proxy" "port" with
          | some n => if 0 ≤ n ∧ n < 65536 then UInt16.ofNat n.toNat else 0
          | .none => 0
        username := d.text? "proxy" "username"
        password := d.text? "proxy" "password" }
    fileToken := d.text? "central" "accesstoken" }

/-- Reads a text as settings. -/
def parse (content : String) : Except Toml.SyntaxError Settings :=
  ofDocument <$> Toml.Document.parse content

/-- The token to show: that of the environment, else that of the file. -/
def accessToken (s : Settings) (env : Environment) : Option String :=
  (env.nonempty? tokenVariable).orElse fun _ => s.fileToken

end Settings

end ConnectorCatalog
