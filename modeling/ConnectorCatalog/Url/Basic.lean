import ConnectorCatalog.Url.Address

/-!
# URLs

A URL with a hierarchical path, in parts that are encoded and brought to a normal form already. Its
text is the parts with their separators between them.
-/

namespace ConnectorCatalog

/-- Where a server is. -/
inductive Host
  | domain (name : List Char)
  | ipv4 (address : Ipv4)
  | ipv6 (address : Ipv6)
deriving DecidableEq, Repr

/-- A host as text. -/
def Host.text : Host → List Char
  | .domain name => name
  | .ipv4 a => a.text
  | .ipv6 a => ['['] ++ a.text ++ [']']

/-- What stands between two slashes and the path: who asks, and where. -/
structure Authority where
  username : List Char
  password : List Char
  host : Option Host
  port : Option Nat
deriving DecidableEq, Repr

/-- The name and password with an at sign after them, if there are any. -/
def Authority.userInfo (a : Authority) : List Char :=
  if a.username.isEmpty ∧ a.password.isEmpty then []
  else a.username ++ (if a.password.isEmpty then [] else ':' :: a.password) ++ ['@']

/-- An authority as text. -/
def Authority.text (a : Authority) : List Char :=
  a.userInfo ++ (a.host.elim [] Host.text)
    ++ a.port.elim [] fun p => ':' :: Nat.toDigits 10 p

/-- A URL. The path is empty or begins with a slash; where it might be taken for an authority, `/.`
guards it. -/
structure Url where
  scheme : List Char
  authority : Option Authority
  guarded : Bool
  path : List Char
  query : Option (List Char)
  fragment : Option (List Char)
deriving DecidableEq, Repr

namespace Url

/-- A URL as text. -/
def text (u : Url) : List Char :=
  u.scheme ++ [':']
    ++ u.authority.elim [] (fun a => ['/', '/'] ++ a.text)
    ++ (if u.guarded then ['/', '.'] else [])
    ++ u.path
    ++ u.query.elim [] (fun q => '?' :: q)
    ++ u.fragment.elim [] (fun f => '#' :: f)

/-- The host of a URL. -/
def host? (u : Url) : Option Host := u.authority.bind Authority.host

/-- The segments of the path. -/
def segments (u : Url) : List (List Char) :=
  match u.path with
  | [] => []
  | _ :: r => cutAll (· == '/') r

end Url

/-- The families of schemes, which differ in their rules. -/
inductive SchemeKind
  /-- Schemes of servers that speak web protocols. -/
  | web
  /-- The scheme of local files. -/
  | file
  /-- All other schemes. -/
  | other
deriving DecidableEq, Repr

/-- The port of a web scheme that need not be written. -/
def defaultPort? (scheme : List Char) : Option Nat :=
  [("http", 80), ("https", 443), ("ws", 80), ("wss", 443), ("ftp", 21)].lookup
    (String.ofList scheme)

/-- The family of a scheme. -/
def SchemeKind.ofScheme (scheme : List Char) : SchemeKind :=
  if scheme = "file".toList then .file
  else if (defaultPort? scheme).isSome then .web
  else .other

/-- A backslash counts as a slash. -/
def SchemeKind.takesBackslash (kind : SchemeKind) : Bool := kind != .other

/-- The character separates the parts of a URL of some kind. -/
def SchemeKind.isSlash (kind : SchemeKind) (c : Char) : Bool :=
  c == '/' || (kind.takesBackslash && c == '\\')

/-- Why a text is no URL. -/
inductive UrlError
  | noScheme
  | emptyHost
  | invalidPort
  | invalidIpv4
  | invalidIpv6
  | invalidDomain
  | invalidDomainCharacter
deriving DecidableEq, Repr

/-- The words for a URL error. -/
def UrlError.message : UrlError → String
  | .noScheme => "relative URL without a base"
  | .emptyHost => "empty host"
  | .invalidPort => "invalid port number"
  | .invalidIpv4 => "invalid IPv4 address"
  | .invalidIpv6 => "invalid IPv6 address"
  | .invalidDomain => "invalid international domain name"
  | .invalidDomainCharacter => "invalid domain character"

end ConnectorCatalog
