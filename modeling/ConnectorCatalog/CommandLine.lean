import ConnectorCatalog.Service.List

/-!
# The command line

Without arguments the program serves a client on its standard input and output. It can also list
connectors once, or say what it is. Arguments are taken from left to right; the first that does not
fit decides.
-/

namespace ConnectorCatalog

/-- What the program is to do. -/
inductive Command
  | serve
  | version
  | help
  | listHelp
  | list (request : ListRequest)
deriving DecidableEq, Repr

/-- The arguments make no sense. -/
inductive UsageError
  | invalid
deriving DecidableEq, Repr

/-- What an option of the list command asks for. -/
inductive ListOption
  | targetFile
  | packageName
deriving DecidableEq, Repr

namespace ListOption

/-- The way an option is written. -/
def text : ListOption → String
  | targetFile => "--target-file"
  | packageName => "--package-name"

/-- The options. -/
def all : List ListOption := [targetFile, packageName]

/-- The option that an argument is, and the value that stands in the same argument. -/
def ofArgument? (argument : String) : Option (ListOption × Option String) :=
  all.findSome? fun o =>
    match o.text.toList.isPrefixOf? argument.toList with
    | some [] => some (o, none)
    | some ('=' :: value) => some (o, some (String.ofList value))
    | _ => none

end ListOption

namespace Command

/-- The name of the list command. -/
def listName : String := "connectors"

/-- The name of the help command. -/
def helpName : String := "help"

/-- An argument that can be a value: one that does not look like an option. -/
def isValue (argument : String) : Bool := argument == "-" || argument.toList.head? != some '-'

/-- Options with values, as far as they are given. -/
structure ListArguments where
  targetFile : Option String
  packageName : Option String

/-- Gives an option its value: once only, and a file has a name. -/
def ListArguments.give (a : ListArguments) (option : ListOption) (value : String) :
    Except UsageError ListArguments :=
  match option with
  | .targetFile =>
    if a.targetFile.isSome ∨ value.isEmpty then .error .invalid
    else .ok { a with targetFile := some value }
  | .packageName =>
    if a.packageName.isSome then .error .invalid else .ok { a with packageName := some value }

/-- The request that options make. A file must be given. -/
def ListArguments.request (a : ListArguments) : Except UsageError Command :=
  match a.targetFile with
  | some file => .ok (.list ⟨a.packageName.getD "", file⟩)
  | none => .error .invalid

/-- Reads the arguments of the list command. -/
def parseList (a : ListArguments) : List String → Except UsageError Command
  | [] => a.request
  | ["--"] => a.request
  | argument :: rest =>
    if argument = "--help" ∨ "-h".toList.isPrefixOf argument.toList then .ok .listHelp
    else
      match ListOption.ofArgument? argument, rest with
      | none, _ => .error .invalid
      | some (option, some value), rest => do parseList (← a.give option value) rest
      | some (_, none), [] => .error .invalid
      | some (option, none), value :: rest =>
        if isValue value then do parseList (← a.give option value) rest else .error .invalid

/-- Reads the arguments of the help command: the name of a command, if any. -/
def parseHelp : List String → Except UsageError Command
  | [] => .ok .help
  | [name] =>
    if name = listName then .ok .listHelp
    else if name = helpName then .ok .help
    else .error .invalid
  | _ => .error .invalid

/-- Reads the arguments of the program. -/
def parse : List String → Except UsageError Command
  | [] => .ok .serve
  | ["--"] => .ok .serve
  | argument :: rest =>
    if argument = "--version" ∨ "-V".toList.isPrefixOf argument.toList then .ok .version
    else if argument = "--help" ∨ "-h".toList.isPrefixOf argument.toList then .ok .help
    else if argument = listName then parseList ⟨none, none⟩ rest
    else if argument = helpName then parseHelp rest
    else .error .invalid

end Command

/-- What the program says of itself. -/
def versionText : String := serverName ++ " " ++ serverVersion ++ "\n"

/-- How the program is used. -/
def helpText : String :=
  "\n".intercalate [
    "Language Server for Ballerina connector metadata",
    "",
    "Usage: " ++ serverName ++ " [COMMAND]",
    "",
    "Commands:",
    "  connectors  List connectors from Ballerina Central and the project containing a file",
    "  help        Print this message or the help of the given subcommand(s)",
    "",
    "Options:",
    "  -h, --help     Print help",
    "  -V, --version  Print version",
    ""]

/-- How the list command is used. -/
def listHelpText : String :=
  "\n".intercalate [
    "List connectors from Ballerina Central and the project containing a file",
    "",
    "Usage: " ++ serverName ++ " connectors [OPTIONS] --target-file <TARGET_FILE>",
    "",
    "Options:",
    "      --target-file <TARGET_FILE>    File inside the project to scan for local connectors",
    "      --package-name <PACKAGE_NAME>  Restrict the registry search to a package [default: ]",
    "  -h, --help                         Print help",
    ""]

/-- The status of a program whose arguments make no sense. -/
def usageErrorCode : Nat := 2

/-- The listing for a request, as the program prints it. -/
def printedListing (around : Surroundings) (request : ListRequest) :
    Exchange (String × List Failure) := do
  let service := Service.ofConfig .default around.environment
  let listing ← service.list around request
  return (String.ofList (listing.response.toJson.indented 0) ++ "\n", listing.failures)

end ConnectorCatalog
