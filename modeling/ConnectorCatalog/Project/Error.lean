import ConnectorCatalog.Files.Tree
import ConnectorCatalog.Json.Record
import ConnectorCatalog.Project.Basic
import ConnectorCatalog.Toml.Parser

/-!
# Project errors

Why no project can be loaded from a path, or no compiled package found.
-/

namespace ConnectorCatalog

/-- Why there is no project. -/
inductive ProjectError
  | projectNotFound (path : Path)
  | io (path : Path) (cause : FileError)
  | invalidManifest (path : Path) (cause : Toml.SyntaxError)
  | invalidMetadata (path : Path) (cause : Json.ReadError)
  | noCompiledPackage (package : PackageName)
deriving DecidableEq, Repr

/-- The words for a project error. -/
def ProjectError.message : ProjectError → String
  | .projectNotFound path => "No Ballerina project found at " ++ quoted (String.ofList path)
  | .io path cause => "Failed to read " ++ quoted (String.ofList path) ++ ": " ++ cause.message
  | .invalidManifest path cause =>
    "Invalid Ballerina.toml at " ++ quoted (String.ofList path) ++ ": " ++ cause.message
  | .invalidMetadata path cause =>
    "Invalid package.json at " ++ quoted (String.ofList path) ++ ": " ++ cause.message
  | .noCompiledPackage package => "no compiled package found for package '" ++ package.text ++ "'"

end ConnectorCatalog
