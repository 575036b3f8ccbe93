import ConnectorCatalog.Server.Initialize
import ConnectorCatalog.Service.Basic

/-!
# Methods

The methods that a session knows: those that begin and end it, the two that answer for connectors,
and the standard ones of language servers. Of the latter this server offers none; it only tells
whether a request for one was put well.
-/

namespace ConnectorCatalog

/-- What a session does with a method. -/
inductive Method
  | start
  | started
  | shutdown
  | exit
  | cancel
  | list
  | lookup
  /-- A standard request, with the form of its parameters. -/
  | request (params : Shape)
  /-- A standard notification. -/
  | notification
  | unknown

namespace Shape

/-- The members of an object whose fields are spread over several records. Those of the first record
are checked in their place, then those of each further one. -/
def spread (name : String) (own : List Field) (others : List (List Field)) : Shape
  | .object ms => do
    for fields in own :: others do
      let known ← knownMembers fields [] ms
      match missing? fields known with
      | some f => throw (.missingField f.name)
      | none => pure ()
  | j => .error (.invalidType j.found ("struct " ++ name))

end Shape

namespace Method

open Shape

/-- A document. -/
def document : Shape := record "TextDocumentIdentifier" [.required "uri" urlShape]

/-- A place in a document. -/
def position : Shape := record "Position" [.required "line" u32, .required "character" u32]

/-- A stretch of a document. -/
def range : Shape := record "Range" [.required "start" position, .required "end" position]

/-- A document and a place in it. -/
def place : List Field := [.required "textDocument" document, .required "position" position]

/-- What progress is reported under. -/
def progress (name : String) : List Field := [.orNull name (either "NumberOrString" i32 string)]

/-- What the progress of work is reported under. -/
def work : List Field := progress "workDoneToken"

/-- What partial results are reported under. -/
def partialResult : List Field := progress "partialResultToken"

/-- Parameters that are a place. -/
def atPlace (name : String) : Shape := spread name [] [place, work, partialResult]

/-- Parameters that are a document and some fields. -/
def inDocument (name : String) (fields : List Field) : Shape :=
  spread name ([.required "textDocument" document] ++ fields) [work, partialResult]

/-- The standard requests. -/
def requests : List (String × Shape) := [
  ("textDocument/willSaveWaitUntil", record "WillSaveTextDocumentParams"
    [.required "textDocument" document, .required "reason" i32]),
  ("textDocument/declaration", atPlace "GotoDefinitionParams"),
  ("textDocument/definition", atPlace "GotoDefinitionParams"),
  ("textDocument/typeDefinition", atPlace "GotoDefinitionParams"),
  ("textDocument/implementation", atPlace "GotoDefinitionParams"),
  ("textDocument/references", spread "ReferenceParams"
    [.required "context" (record "ReferenceContext" [.required "includeDeclaration" bool])]
    [place, work, partialResult]),
  ("textDocument/prepareCallHierarchy", spread "CallHierarchyPrepareParams" [] [place, work]),
  ("callHierarchy/incomingCalls", any),
  ("callHierarchy/outgoingCalls", any),
  ("textDocument/prepareTypeHierarchy", spread "TypeHierarchyPrepareParams" [] [place, work]),
  ("typeHierarchy/supertypes", any),
  ("typeHierarchy/subtypes", any),
  ("textDocument/documentHighlight", atPlace "DocumentHighlightParams"),
  ("textDocument/documentLink", inDocument "DocumentLinkParams" []),
  ("documentLink/resolve", record "DocumentLink" [.required "range" range,
    .orNull "target" urlShape, .orNull "tooltip" string, .orNull "data" any]),
  ("textDocument/hover", spread "HoverParams" [] [place, work]),
  ("textDocument/codeLens", inDocument "CodeLensParams" []),
  ("codeLens/resolve", any),
  ("textDocument/foldingRange", inDocument "FoldingRangeParams" []),
  ("textDocument/selectionRange", inDocument "SelectionRangeParams"
    [.required "positions" (Shape.list position)]),
  ("textDocument/documentSymbol", inDocument "DocumentSymbolParams" []),
  ("textDocument/semanticTokens/full", inDocument "SemanticTokensParams" []),
  ("textDocument/semanticTokens/full/delta", inDocument "SemanticTokensDeltaParams"
    [.required "previousResultId" string]),
  ("textDocument/semanticTokens/range", inDocument "SemanticTokensRangeParams"
    [.required "range" range]),
  ("textDocument/inlineValue", any),
  ("textDocument/inlayHint", spread "InlayHintParams"
    [.required "textDocument" document, .required "range" range] [work]),
  ("inlayHint/resolve", any),
  ("textDocument/moniker", atPlace "MonikerParams"),
  ("textDocument/completion", spread "CompletionParams"
    [.orNull "context" (record "CompletionContext"
      [.required "triggerKind" i32, .orNull "triggerCharacter" string])]
    [place, work, partialResult]),
  ("completionItem/resolve", any),
  ("textDocument/diagnostic", inDocument "DocumentDiagnosticParams"
    [.orNull "identifier" string, .orNull "previousResultId" string]),
  ("workspace/diagnostic", any),
  ("textDocument/signatureHelp", spread "SignatureHelpParams" [.orNull "context" any]
    [place, work]),
  ("textDocument/codeAction", any),
  ("codeAction/resolve", any),
  ("textDocument/documentColor", inDocument "DocumentColorParams" []),
  ("textDocument/colorPresentation", any),
  ("textDocument/formatting", any),
  ("textDocument/rangeFormatting", any),
  ("textDocument/onTypeFormatting", any),
  ("textDocument/rename", spread "RenameParams" [.required "newName" string] [place, work]),
  ("textDocument/prepareRename", record "TextDocumentPositionParams" place),
  ("textDocument/linkedEditingRange", spread "LinkedEditingRangeParams" [] [place, work]),
  ("workspace/symbol", spread "WorkspaceSymbolParams" [.required "query" string]
    [partialResult, work]),
  ("workspaceSymbol/resolve", any),
  ("workspace/willCreateFiles", any),
  ("workspace/willRenameFiles", any),
  ("workspace/willDeleteFiles", any),
  ("workspace/executeCommand", spread "ExecuteCommandParams"
    [.required "command" string, .optional "arguments" (Shape.list any)] [work])]

/-- The standard notifications. -/
def notifications : List String := [
  "textDocument/didOpen", "textDocument/didChange", "textDocument/willSave", "textDocument/didSave",
  "textDocument/didClose", "workspace/didChangeConfiguration",
  "workspace/didChangeWorkspaceFolders", "workspace/didCreateFiles", "workspace/didRenameFiles",
  "workspace/didDeleteFiles", "workspace/didChangeWatchedFiles"]

/-- The methods that mean something to this server. -/
def own : List (String × Method) := [
  ("initialize", start), ("initialized", started), ("shutdown", shutdown), ("exit", exit),
  ("$/cancelRequest", cancel), (listMethod, list), (lookupMethod, lookup)]

/-- The method with a name. -/
def ofName (name : String) : Method :=
  match own.lookup name with
  | some m => m
  | none =>
    match requests.lookup name with
    | some params => request params
    | none => if notifications.contains name then notification else unknown

end Method

end ConnectorCatalog
