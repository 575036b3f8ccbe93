import ConnectorCatalog.Files.Path
import ConnectorCatalog.Text.Quoted

/-!
# File trees

Files and directories below a root, in the order in which a directory lists them, and the current
directory, from which relative paths start. A path is followed component by component, and nothing
lies above the root. Every look at the tree goes through `FileTree.find`, which says what a path
leads to or why it leads nowhere.
-/

namespace ConnectorCatalog

/-- The content of a file: a text, or bytes that are none. -/
inductive FileContent
  | text (content : String)
  | binary
deriving DecidableEq, Repr

/-- The content with some bytes. -/
def FileContent.ofBytes (bytes : List UInt8) : FileContent :=
  match String.fromUTF8? ⟨bytes.toArray⟩ with
  | some content => .text content
  | none => .binary

/-- What stands at a place of a tree. -/
inductive FileNode
  | directory
  | file (content : FileContent)
deriving DecidableEq, Repr

/-- Files and directories by their names from the root down, and the current directory. -/
structure FileTree where
  current : List String
  entries : List (List String × FileNode)
deriving Repr

/-- Why a path leads to nothing that can be read. -/
inductive FileError
  | notFound
  | notDirectory
  | isDirectory
  | notText
  | nullInName
deriving DecidableEq, Repr

/-- The words for a file error. -/
def FileError.message : FileError → String
  | .notFound => "No such file or directory (os error 2)"
  | .notDirectory => "Not a directory (os error 20)"
  | .isDirectory => "Is a directory (os error 21)"
  | .notText => "stream did not contain valid UTF-8"
  | .nullInName => "file name contained an unexpected NUL byte"

namespace FileTree

/-- A tree with nothing in it but its current directory, to which no path from the root leads: its
name is not one that a path can write. -/
def empty : FileTree := ⟨["/"], []⟩

/-- What stands at a place. The current directory is there, and so are those above it. -/
def node? (t : FileTree) (place : List String) : Option FileNode :=
  if place.isPrefixOf t.current then some .directory else t.entries.lookup place

/-- Follows one component from a place. The root lies above itself. -/
def follow (t : FileTree) (place : List String) (component : List Char) :
    Except FileError (List String) :=
  match t.node? place with
  | none => .error .notFound
  | some (.file _) => .error .notDirectory
  | some .directory =>
    if component = [] ∨ component = ['.'] then .ok place
    else if component = ['.', '.'] then .ok place.dropLast
    else .ok (place ++ [String.ofList component])

/-- Follows components one after the other. -/
def followAll (t : FileTree) (place : List String) :
    List (List Char) → Except FileError (List String)
  | [] => .ok place
  | c :: cs => do t.followAll (← t.follow place c) cs

/-- The place where a path starts. -/
def start (t : FileTree) (p : Path) : List String := if p.isAbsolute then [] else t.current

/-- What a path leads to. -/
def find (t : FileTree) (p : Path) : Except FileError (List String × FileNode) :=
  if p.any fun c => c.toNat == 0 then .error .nullInName
  else if p.isEmpty then .error .notFound
  else do
    let place ← t.followAll (t.start p) (cutAll (· == '/') p)
    match t.node? place with
    | some node => .ok (place, node)
    | none => .error .notFound

/-- The path leads to something. -/
def exists? (t : FileTree) (p : Path) : Bool := (t.find p).toBool

/-- The path leads to a file. -/
def isFile (t : FileTree) (p : Path) : Bool :=
  match t.find p with
  | .ok (_, .file _) => true
  | _ => false

/-- The path leads to a directory. -/
def isDirectory (t : FileTree) (p : Path) : Bool :=
  match t.find p with
  | .ok (_, .directory) => true
  | _ => false

/-- The text of the file at a path. -/
def readText (t : FileTree) (p : Path) : Except FileError String := do
  match ← t.find p with
  | (_, .file (.text content)) => .ok content
  | (_, .file .binary) => .error .notText
  | (_, .directory) => .error .isDirectory

/-- The names directly below a place, in the order of the tree. -/
def namesBelow (t : FileTree) (place : List String) : List String :=
  t.entries.filterMap fun (names, _) =>
    match names.getLast? with
    | some name => if names.dropLast = place then some name else none
    | none => none

/-- The names that the directory at a path lists. -/
def list (t : FileTree) (p : Path) : Except FileError (List String) := do
  match ← t.find p with
  | (place, .directory) => .ok (t.namesBelow place)
  | (_, .file _) => .error .notDirectory

/-! ### Changing a tree -/

/-- Puts a node at a place, instead of what stands there. -/
def put (t : FileTree) (place : List String) (node : FileNode) : FileTree :=
  { t with entries := t.entries.filter (fun e => e.1 != place) ++ [(place, node)] }

/-- Makes a directory at a place if nothing stands there. -/
def makeDirectory (t : FileTree) (place : List String) : FileTree :=
  if (t.node? place).isSome then t else t.put place .directory

/-- Makes the directories on the way to a place and at it. -/
def makeDirectories (t : FileTree) (place : List String) : FileTree :=
  (List.range (place.length + 1)).foldl (fun t n => t.makeDirectory (place.take n)) t

/-- Writes a file and makes the directories on the way to it. -/
def writeFile (t : FileTree) (place : List String) (content : FileContent) : FileTree :=
  (t.makeDirectories place.dropLast).put place (.file content)

/-- Removes what stands at a place and below it. -/
def remove (t : FileTree) (place : List String) : FileTree :=
  { t with entries := t.entries.filter fun e => !place.isPrefixOf e.1 }

/-- The place that a path without steps upward names, for making or removing something there. -/
def placeOf (t : FileTree) (p : Path) : List String :=
  t.start p ++ ((cutAll (· == '/') p).filter fun c => !c.isEmpty && c != ['.']).map String.ofList

end FileTree

end ConnectorCatalog
