import ConnectorCatalog.Url.Basic

/-!
# Paths of URLs

A path grows by one segment after the other. Segments that are dots name the directory itself or the
one above it and leave nothing behind; a drive letter is never left.
-/

namespace ConnectorCatalog

/-- A segment that names its directory. -/
def isSingleDot (segment : List Char) : Bool :=
  [".", "%2e", "%2E"].contains (String.ofList segment)

/-- A segment that names the directory above. -/
def isDoubleDot (segment : List Char) : Bool :=
  let dots := [['.'], ['%', '2', 'e'], ['%', '2', 'E']]
  dots.any fun a => dots.any fun b => segment == a ++ b

/-- A letter and a colon or bar. -/
def isDriveLetter : List Char → Bool
  | [a, b] => a.isAlpha && (b == ':' || b == '|')
  | _ => false

/-- A path that ends in a slash without its last segment. Neither the root nor a drive letter is
left. -/
def leaveSegment (path : List Char) : List Char :=
  match cutAtLast (· == '/') path.dropLast with
  | none => path
  | some (before, segment) => if isDriveLetter segment then path else before ++ ['/']

/-- A path with one more segment; `closed` says that a slash follows the segment. -/
def addSegment (kind : SchemeKind) (path segment : List Char) (closed : Bool) : List Char :=
  if isDoubleDot segment then leaveSegment path
  else if isSingleDot segment then path
  else
    let isDrive := kind = .file ∧ path = ['/'] ∧ isDriveLetter segment
    let segment := if isDrive then segment.take 1 ++ [':'] else segment
    path ++ segment ++ (if closed then ['/'] else [])

/-- A file's path has no empty segments at its beginning. -/
def settlePath (kind : SchemeKind) (path : List Char) : List Char :=
  if kind = .file then '/' :: path.dropWhile (· == '/') else path

/-- Adds the segments of a text to a path, up to a query or fragment. `segment` is the part of the
current one that has been read. -/
def readPath (kind : SchemeKind) (path segment : List Char) : List Char → List Char × List Char
  | [] => (settlePath kind (addSegment kind path segment false), [])
  | c :: r =>
    if kind.isSlash c then readPath kind (addSegment kind path segment true) [] r
    else if c = '?' ∨ c = '#' then (settlePath kind (addSegment kind path segment false), c :: r)
    else readPath kind path (segment ++ Percent.encode Percent.inPath [c]) r

namespace Url

/-- The path without an empty segment at its end. -/
def popIfEmpty (path : List Char) : List Char :=
  if 1 < path.length ∧ path.getLast? = some '/' then path.dropLast else path

/-- A path with one more segment, whatever characters that holds. A segment that is dots alone adds
nothing; tabs and line breaks are dropped from it. -/
def pushSegment (kind : SchemeKind) (path segment : List Char) : List Char :=
  if segment = ['.'] ∨ segment = ['.', '.'] then path
  else
    let path := if path = ['/'] then path else path ++ ['/']
    let extra := if kind.takesBackslash then ['\\'] else []
    let kept := segment.filter fun c => c != '\t' && c != '\n' && c != '\r'
    settlePath kind (addSegment kind path (Percent.encode (Percent.inSegment ++ extra) kept) false)

/-- The URL with segments at the end of its path. -/
def withSegments (u : Url) (segments : List (List Char)) : Url :=
  { u with path := segments.foldl (pushSegment (.ofScheme u.scheme)) (popIfEmpty u.path) }

end Url

end ConnectorCatalog
