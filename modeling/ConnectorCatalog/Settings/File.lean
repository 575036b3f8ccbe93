import ConnectorCatalog.Files.Tree
import ConnectorCatalog.Settings

/-!
# Settings files

A settings file is read anew each time it is asked for. A user without one has set nothing.
-/

namespace ConnectorCatalog

/-- Why a settings file gives no settings. -/
inductive SettingsError
  | io (path : Path) (cause : FileError)
  | invalid (path : Path) (cause : Toml.SyntaxError)
deriving DecidableEq, Repr

/-- The words for a settings error. -/
def SettingsError.message : SettingsError → String
  | .io path cause =>
    "Failed to read settings file " ++ quoted (String.ofList path) ++ ": " ++ cause.message
  | .invalid path cause =>
    "Invalid settings file " ++ quoted (String.ofList path) ++ ": " ++ cause.message

/-- The settings in the file at a path. -/
def FileTree.loadSettings (t : FileTree) (path : Path) : Except SettingsError Settings :=
  if t.exists? path then
    match t.readText path with
    | .error cause => .error (.io path cause)
    | .ok content =>
      match Settings.parse content with
      | .error cause => .error (.invalid path cause)
      | .ok settings => .ok settings
  else .ok Settings.default

end ConnectorCatalog
