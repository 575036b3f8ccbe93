import ConnectorCatalog.Project.Load
import ConnectorCatalog.Version

/-!
# Finding compiled packages

Compiled packages lie in repositories as `organization/name/version/platform`. The first repository
that has a package for some coordinates gives it; without a version the newest one there is taken.
Coordinates that are not ordinary names lead nowhere, so the answer lies inside a repository.
-/

namespace ConnectorCatalog

/-- The repositories of a home directory: packages from the registry, then local ones. -/
def repositoriesOf (home : Path) : List Path :=
  let repositories := home.child "repositories"
  ["central.ballerina.io", "local"].map fun name => (repositories.child name).child "bala"

/-- Of some versioned names the newest, the last of equals. -/
def newest? : List (Version × String) → Option (Version × String)
  | [] => none
  | x :: xs =>
    match newest? xs with
    | none => some x
    | some y => if x.1.order y.1 = .gt then some x else some y

/-- The coordinates are ordinary names; the version may be left open. -/
def PackageName.isPlain (p : PackageName) : Bool :=
  Path.isPlainName p.organization && Path.isPlainName p.name
    && (p.version.isEmpty || Path.isPlainName p.version)

namespace FileTree

variable (t : FileTree)

/-- The names that a directory lists, none if it cannot be listed. -/
def listed (dir : Path) : List String :=
  match t.list dir with
  | .ok names => names
  | .error _ => []

/-- The name of the directory with the newest version. -/
def latestVersion? (dir : Path) : Option String :=
  let versions := ((t.listed dir).filter fun n => t.isDirectory (dir.child n)).filterMap fun n =>
    (Version.parse? n).map fun v => (v, n)
  (newest? versions).map Prod.snd

/-- The directory holds an extracted package. -/
def hasMetadata (dir : Path) : Bool := t.isFile (dir.child metadataName)

/-- The extracted package in a version's directory: that for any platform, else the first by name.
-/
def platformDirectory? (dir : Path) : Option Path :=
  if t.hasMetadata (dir.child anyPlatform) then some (dir.child anyPlatform)
  else
    ((sortNames ((t.listed dir).filter fun n => t.hasMetadata (dir.child n))).head?).map dir.child

/-- The package that one repository has for some coordinates. -/
def resolveIn? (p : PackageName) (repository : Path) : Option Path :=
  let dir := (repository.child p.organization).child p.name
  if t.isDirectory dir then
    let version := if p.version.isEmpty then t.latestVersion? dir else some p.version
    version.bind fun v => t.platformDirectory? (dir.child v)
  else none

/-- The package for some coordinates. -/
def resolve? (repositories : List Path) (p : PackageName) : Option Path :=
  if p.isPlain then repositories.findSome? (t.resolveIn? p) else none

/-- The packages for coordinates, each on its own. -/
def resolveAll (repositories : List Path) (ps : List PackageName) : List (Option Path) :=
  ps.map (t.resolve? repositories)

/-- The package for some coordinates, or that there is none. -/
def balaPath (repositories : List Path) (p : PackageName) : Except ProjectError Path :=
  match t.resolve? repositories p with
  | some path => .ok path
  | none => .error (.noCompiledPackage p)

end FileTree

end ConnectorCatalog
