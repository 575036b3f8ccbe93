import ConnectorCatalog.Url.Domain
import ConnectorCatalog.Url.Path

/-!
# Reading URLs

Reads a text as a URL. Spaces and control characters around it, and tabs and line breaks anywhere in
it, count for nothing. A web URL has a host whatever slashes stand before it; other URLs have one
behind two slashes; and a URL whose path begins with no slash has no hierarchy.
-/

namespace ConnectorCatalog

/-- A text that is a URL: one with a path, or one whose scheme makes of the rest what it likes. -/
inductive UrlText
  | hierarchical (url : Url)
  | opaquePath
deriving DecidableEq, Repr

/-- The character is an ASCII letter. -/
def isLetter (c : Char) : Bool := ('a' ≤ c && c ≤ 'z') || ('A' ≤ c && c ≤ 'Z')

/-- The character may stand in a scheme. -/
def isSchemeCharacter (c : Char) : Bool :=
  isLetter c || ('0' ≤ c && c ≤ '9') || c == '+' || c == '-' || c == '.'

/-- The scheme that a text begins with, in small letters, and what follows its colon. -/
def readScheme? (s : List Char) : Option (List Char × List Char) :=
  let scheme := s.takeWhile isSchemeCharacter
  match s.dropWhile isSchemeCharacter with
  | ':' :: r =>
    if (scheme.head?.map isLetter) = some true then some (scheme.map Char.toLower, r) else none
  | _ => none

/-- The character ends an authority. -/
def endsAuthority (kind : SchemeKind) (c : Char) : Bool := kind.isSlash c || c == '?' || c == '#'

/-- The encoded name and password before the last at sign of an authority, and what follows it. -/
def readUserInfo (kind : SchemeKind) (s : List Char) :
    Except UrlError (List Char × List Char × List Char) :=
  let authority := s.takeWhile fun c => !endsAuthority kind c
  let after := s.dropWhile fun c => !endsAuthority kind c
  match cutAtLast (· == '@') authority with
  | none => .ok ([], [], s)
  | some (info, rest) =>
    if info.isEmpty ∧ rest.isEmpty ∧ !after.isEmpty then .error .emptyHost
    else
      let (name, password) := (cutAtFirst (· == ':') info).getD (info, [])
      let encode := Percent.encode Percent.inUserInfo
      .ok (encode name, encode password, rest ++ after)

/-- The host that a text begins with, up to a colon outside brackets or the end of the authority. -/
def splitHost (kind : SchemeKind) (inBrackets : Bool) : List Char → List Char × List Char
  | [] => ([], [])
  | c :: r =>
    if (c = ':' ∧ !inBrackets) ∨ endsAuthority kind c then ([], c :: r)
    else
      let inBrackets := if c = '[' then true else if c = ']' then false else inBrackets
      let (host, rest) := splitHost kind inBrackets r
      (c :: host, rest)

/-- An address in brackets. -/
def readBrackets (s : List Char) : Except UrlError Host :=
  if s.getLast? = some ']' then
    match Ipv6.parse? ((s.drop 1).dropLast) with
    | some a => .ok (.ipv6 a)
    | none => .error .invalidIpv6
  else .error .invalidIpv6

/-- The host of a URL of the web or of a file. -/
def readHost (s : List Char) : Except UrlError Host :=
  if s.head? = some '[' then readBrackets s
  else
    match (Percent.decodeText? s).bind fun name => Domain.toAscii? name.toList with
    | none => .error .invalidDomain
    | some name =>
      if name.isEmpty then .error .emptyHost
      else if Ipv4.isMeant name then
        match Ipv4.parse? name with
        | some a => .ok (.ipv4 a)
        | none => .error .invalidIpv4
      else .ok (.domain name)

/-- The host of any other URL, empty or not. -/
def readOtherHost (s : List Char) : Except UrlError Host :=
  let forbidden := ['\x00', '\t', '\n', '\r', ' ', '#', '/', ':', '<', '>', '?', '@', '[', '\\',
    ']', '^', '|']
  if s.head? = some '[' then readBrackets s
  else if s.any forbidden.contains then .error .invalidDomainCharacter
  else .ok (.domain (Percent.encode [] s))

/-- The port after a colon, none if it is the scheme's own, and what follows it. -/
def readPort (scheme : List Char) (s : List Char) : Except UrlError (Option Nat × List Char) :=
  let digits := s.takeWhile Char.isDigit
  let rest := s.dropWhile Char.isDigit
  let port := digits.foldl (fun n c => 10 * n + (c.toNat - '0'.toNat)) 0
  let ends := match rest.head? with
    | none => true
    | some c => ['/', '\\', '?', '#'].contains c
  if 65535 < port ∨ !ends then .error .invalidPort
  else if digits.isEmpty ∨ defaultPort? scheme = some port then .ok (none, rest)
  else .ok (some port, rest)

/-- The host and port of an authority, and what follows them. -/
def readHostAndPort (kind : SchemeKind) (scheme s : List Char) :
    Except UrlError (Option Host × Option Nat × List Char) := do
  let (text, rest) := splitHost kind false s
  let host ←
    if kind = .other then
      if text.isEmpty then .ok none else some <$> readOtherHost text
    else if text.isEmpty then .error .emptyHost
    else some <$> readHost text
  match rest with
  | ':' :: r =>
    if host.isNone then .error .emptyHost
    else
      let (port, rest) ← readPort scheme r
      .ok (host, port, rest)
  | _ => .ok (host, none, rest)

/-- The path after an authority. A path of the web is never empty. -/
def readPathStart (kind : SchemeKind) (s : List Char) : List Char × List Char :=
  match s with
  | [] => if kind = .other then ([], []) else readPath kind ['/'] [] []
  | c :: r =>
    if kind = .other then
      if c = '?' ∨ c = '#' then ([], s)
      else if c = '/' then readPath kind [] [] s
      else readPath kind ['/'] [] s
    else if kind.isSlash c then readPath kind ['/'] [] r
    else readPath kind ['/'] [] s

/-- The query and the fragment that stand after a path. -/
def readQueryAndFragment (kind : SchemeKind) (s : List Char) :
    Option (List Char) × Option (List Char) :=
  let extra := if kind = .other then [] else ['\'']
  let query := Percent.encode (Percent.inQuery ++ extra)
  let fragment := Percent.encode Percent.inFragment
  match s with
  | '?' :: r =>
    match cutAtFirst (· == '#') r with
    | some (q, f) => (some (query q), some (fragment f))
    | none => (some (query r), none)
  | '#' :: r => (none, some (fragment r))
  | _ => (none, none)

/-- A URL with a path and what follows that. -/
def assembled (scheme : List Char) (authority : Option Authority) (path rest : List Char) : Url :=
  let (query, fragment) := readQueryAndFragment (.ofScheme scheme) rest
  let guarded := authority.isNone && ['/', '/'].isPrefixOf path
  ⟨scheme, authority, guarded, path, query, fragment⟩

/-- Reads a URL from its authority on. -/
def readAuthority (kind : SchemeKind) (scheme s : List Char) : Except UrlError Url := do
  let (username, password, r) ← readUserInfo kind s
  let (host, port, r) ← readHostAndPort kind scheme r
  if host.isNone ∧ !(username.isEmpty && password.isEmpty) then .error .emptyHost
  else
    let (path, rest) := readPathStart kind r
    .ok (assembled scheme (some ⟨username, password, host, port⟩) path rest)

/-- The path begins with a drive letter. -/
def beginsWithDrive (path : List Char) : Bool :=
  isDriveLetter ((path.drop 1).takeWhile (· != '/'))

/-- Reads the URL of a local file from its scheme on. A drive letter stands in no host, and a file
on a drive has none. -/
def readFile (scheme s : List Char) : Except UrlError Url := do
  let nowhere : Authority := ⟨[], [], none, none⟩
  let isSlash := SchemeKind.isSlash .file
  match s with
  | a :: b :: r =>
    if isSlash a ∧ isSlash b then
      let (text, rest) := (r.takeWhile fun c => !endsAuthority .file c,
        r.dropWhile fun c => !endsAuthority .file c)
      if isDriveLetter text then
        let (path, rest) := readPath .file ['/'] [] r
        .ok (assembled scheme (some nowhere) path rest)
      else
        let host ← if text.isEmpty then .ok none else some <$> readHost text
        let host := host.filter fun h => h != .domain "localhost".toList
        let (path, rest) := readPathStart .file rest
        let host := if beginsWithDrive path then none else host
        .ok (assembled scheme (some { nowhere with host }) path rest)
    else
      let (path, rest) := if isSlash a then readPath .file [] [] s else readPath .file ['/'] [] s
      .ok (assembled scheme (some nowhere) path rest)
  | _ =>
    let (path, rest) := readPath .file ['/'] [] s
    .ok (assembled scheme (some nowhere) path rest)

/-- Reads a text as a URL. -/
def UrlText.parse (text : String) : Except UrlError UrlText :=
  let dropped (c : Char) : Bool := c == '\t' || c == '\n' || c == '\r'
  let s := (trimWhile (· ≤ ' ') text.toList).filter fun c => !dropped c
  match readScheme? s with
  | none => .error .noScheme
  | some (scheme, r) =>
    match SchemeKind.ofScheme scheme with
    | .file => .hierarchical <$> readFile scheme r
    | .web => .hierarchical <$> readAuthority .web scheme (r.dropWhile (SchemeKind.isSlash .web))
    | .other =>
      match r with
      | '/' :: '/' :: r => .hierarchical <$> readAuthority .other scheme r
      | '/' :: r =>
        let (path, rest) := readPath .other ['/'] [] r
        .ok (.hierarchical (assembled scheme none path rest))
      | _ => .ok .opaquePath

end ConnectorCatalog
