import ConnectorCatalog.Config
import ConnectorCatalog.Project.Error

/-!
# Loading projects

A directory is a project if it holds a manifest, or the metadata of a compiled package beside a
directory of modules. A directory is loaded itself; any other path, whether or not something stands
there, is loaded as the nearest project above it, and a source file without one as a project of its
own. Documents and modules come in the order of their names.
-/

namespace ConnectorCatalog

/-- The manifest of a build project. -/
def manifestName : String := "Ballerina.toml"

/-- The metadata of a compiled package. -/
def metadataName : String := "package.json"

/-- The directory of modules. -/
def modulesName : String := "modules"

/-- The organization of a project that names none. -/
def anonymousOrganization : String := "$anon"

/-- The name is that of a source file. -/
def isSourceName (name : String) : Bool := Path.extensionOf name == some "bal".toList

/-- Names in ascending order. -/
def sortNames (names : List String) : List String := names.mergeSort fun a b => decide (a ≤ b)

namespace FileTree

variable (t : FileTree)

/-- The names of source files directly in a directory, in order. -/
def sourceNames (dir : Path) : Except ProjectError (List String) :=
  match t.list dir with
  | .error cause => .error (.io dir cause)
  | .ok names =>
    .ok (sortNames (names.filter fun n => t.isFile (dir.child n) && isSourceName n))

/-- Reads the documents with some names in a directory. -/
def readDocuments (dir : Path) : List String → Except ProjectError (List Document)
  | [] => .ok []
  | name :: names => do
    let path := dir.child name
    match t.readText path with
    | .error cause => .error (.io path cause)
    | .ok content =>
      let rest ← readDocuments dir names
      .ok (⟨name, String.ofList path, content⟩ :: rest)

/-- The documents directly in a directory. -/
def documentsIn (dir : Path) : Except ProjectError (List Document) := do
  t.readDocuments dir (← t.sourceNames dir)

/-- The names of the directories directly in a directory, in order; there are none in what is no
directory. -/
def directoryNames (dir : Path) : Except ProjectError (List String) :=
  if t.isDirectory dir then
    match t.list dir with
    | .error cause => .error (.io dir cause)
    | .ok names => .ok (sortNames (names.filter fun n => t.isDirectory (dir.child n)))
  else .ok []

/-- The modules in the directories with some names, called by `moduleName`. -/
def readModules (dir : Path) (moduleName : String → String) :
    List String → Except ProjectError (List Module)
  | [] => .ok []
  | name :: names => do
    let documents ← t.documentsIn (dir.child name)
    let rest ← readModules dir moduleName names
    .ok (⟨moduleName name, documents⟩ :: rest)

/-- The modules in the directory of modules below a root. -/
def modulesIn (root : Path) (moduleName : String → String) : Except ProjectError (List Module) := do
  let dir := root.child modulesName
  t.readModules dir moduleName (← t.directoryNames dir)

/-- The package that a manifest names. -/
def packageOf (root : Path) (manifest : Toml.Document) : PackageName :=
  { organization := (manifest.text? "package" "org").getD anonymousOrganization
    name := (manifest.text? "package" "name").getD root.fileName
    version := (manifest.text? "package" "version").getD defaultPackageVersion }

/-- Loads the project with a manifest in `root`. -/
def loadBuild (root : Path) : Except ProjectError Project := do
  let path := root.child manifestName
  match t.readText path with
  | .error cause => .error (.io path cause)
  | .ok content =>
    match Toml.Document.parse content with
    | .error cause => .error (.invalidManifest path cause)
    | .ok manifest =>
      let package := packageOf root manifest
      let documents ← t.documentsIn root
      let modules ← t.modulesIn root fun name => package.name ++ "." ++ name
      .ok { kind := .build
            sourceRoot := String.ofList root
            package
            modules := ⟨package.name, documents⟩ :: modules }

/-- Loads the compiled package with metadata in `root`. -/
def loadBala (root : Path) : Except ProjectError Project := do
  let path := root.child metadataName
  match t.readText path with
  | .error cause => .error (.io path cause)
  | .ok content =>
    let fields := ["organization", "name", "version"]
    match Json.readAll (Json.readTexts "BalaPackageJson" fields) content.toList with
    | .error cause => .error (.invalidMetadata path cause)
    | .ok found =>
      let text (name : String) : String := (found.lookup name).getD ""
      let modules ← t.modulesIn root id
      .ok { kind := .bala
            sourceRoot := String.ofList root
            package := ⟨text "organization", text "name", text "version"⟩
            modules }

/-- Loads a source file as a project of its own. -/
def loadFile (path : Path) : Except ProjectError Project :=
  match t.readText path with
  | .error cause => .error (.io path cause)
  | .ok content =>
    .ok { kind := .singleFile
          sourceRoot := String.ofList path
          package := ⟨anonymousOrganization, ".", defaultPackageVersion⟩
          modules := [⟨".", [⟨path.fileName, String.ofList path, content⟩]⟩] }

/-- The directory holds a compiled package. -/
def isBalaRoot (dir : Path) : Bool :=
  t.isFile (dir.child metadataName) && t.isDirectory (dir.child modulesName)

/-- Loads the project in a directory, if it is one. -/
def loadRoot? (dir : Path) : Option (Except ProjectError Project) :=
  if t.isFile (dir.child manifestName) then some (t.loadBuild dir)
  else if t.isBalaRoot dir then some (t.loadBala dir)
  else none

/-- Loads the first of some directories that is a project. Metadata that cannot be read belongs to
some other tool, and its directory is passed over. -/
def loadNearest? : List Path → Option (Except ProjectError Project)
  | [] => none
  | dir :: dirs =>
    match t.loadRoot? dir with
    | none => loadNearest? dirs
    | some (.error (.invalidMetadata _ _)) => loadNearest? dirs
    | some result => some result

/-- Loads the project at a path, or around it. -/
def load (path : Path) : Except ProjectError Project :=
  if t.isDirectory path then (t.loadRoot? path).getD (.error (.projectNotFound path))
  else
    let parent := path.parent?.getD (Path.ofString ".")
    match t.loadNearest? parent.ancestors with
    | some result => result
    | none =>
      if path.extension? = some "bal".toList then t.loadFile path
      else .error (.projectNotFound path)

end FileTree

end ConnectorCatalog
