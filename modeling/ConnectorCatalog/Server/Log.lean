import ConnectorCatalog.Config
import ConnectorCatalog.Files.Tree

/-!
# The log file

A server that reads and writes messages on its streams keeps its log in a file of its own, which has
to be there before the first message is read.
-/

namespace ConnectorCatalog

namespace FileTree

/-- A file stands where one of the directories on the way to a place should. -/
def isBlocked (t : FileTree) (place : List String) : Bool :=
  (List.range place.length).any fun n =>
    match t.node? (place.take n) with
    | some (.file _) => true
    | _ => false

/-- Opens a file to write at its end: makes it if it is not there, and the directories on the way.
-/
def openForAppending (t : FileTree) (path : Path) : Except FileError FileTree :=
  let place := t.placeOf path
  if t.isBlocked place then .error .notDirectory
  else
    match t.node? place with
    | some .directory => .error .isDirectory
    | some (.file _) => .ok t
    | none => .ok (t.writeFile place (.text ""))

end FileTree

/-- Opens the log file. -/
def openLog (files : FileTree) (env : Environment) : Except FileError FileTree :=
  files.openForAppending (logPath env)

/-- The status of a program that cannot open its log: that of a breakdown if something else than a
file has the log's name, else that of an ordinary failure. -/
def logErrorCode : FileError → Nat
  | .isDirectory => 101
  | _ => 1

end ConnectorCatalog
