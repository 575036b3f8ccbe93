import ConnectorCatalog.Json.Shape

/-!
# Capabilities of a client

The form in which a client tells what it can do. Nothing of it matters to this server, but a client
that gets the form wrong is refused.
-/

namespace ConnectorCatalog

namespace Shape

/-- Names in backquotes, as a choice. -/
def choiceText (names : List String) : String :=
  let quote (n : String) : String := "`" ++ n ++ "`"
  match names with
  | [] => "there are no variants"
  | [a] => quote a
  | [a, b] => quote a ++ " or " ++ quote b
  | names => "one of " ++ ", ".intercalate (names.map quote)

/-- One of some names, alone or as the key of an object whose member is null. -/
def oneOf (names : List String) : Shape
  | .string s => if names.contains s then .ok () else .error (.unknownVariant s (choiceText names))
  | .object [(k, x)] =>
    if !names.contains k then .error (.unknownVariant k (choiceText names))
    else if x.isNull then .ok ()
    else .error (.invalidType x.found "unit")
  | .object _ => .error (.invalidValue .map "map with a single key")
  | j => .error (.invalidType j.found "string or map")

/-- The first of two shapes that fits; otherwise a value of the choice called `name`. -/
def either (name : String) (a b : Shape) : Shape := fun j =>
  if (a j).toBool || (b j).toBool then .ok ()
  else .error (.other ("data did not match any variant of untagged enum " ++ name))

/-- Fields that are truth values and may be left out. -/
def switches (names : List String) : List Field := names.map fun n => Field.orNull n bool

/-- A record called `name` of truth values that may be left out. -/
def switchRecord (name : String) (names : List String) : Shape := record name (switches names)

end Shape

namespace ClientCapabilities

open Shape

/-- Whether a capability can be registered later. -/
def dynamicRegistration : Shape :=
  switchRecord "DynamicRegistrationClientCapabilities" ["dynamicRegistration"]

/-- A set of values that a client knows. -/
def valueSet (name : String) (required : Bool) (value : Shape) : Shape :=
  record name [if required then .required "valueSet" (Shape.list value)
    else .orNull "valueSet" (Shape.list value)]

/-- The tags that a client knows. It may also say just whether it knows any. -/
def tagSupport : Field :=
  .optionalOrNull "tagSupport" fun
    | .bool _ => .ok ()
    | j => valueSet "TagSupport" true i32 j

/-- A record with a list of properties. -/
def properties (name : String) : Shape := record name [.required "properties" (Shape.list string)]

/-- The formats of documentation. -/
def markup : Shape := oneOf ["plaintext", "markdown"]

/-- What a client can do to its workspace. -/
def workspace : Shape :=
  record "WorkspaceClientCapabilities" [
    .orNull "applyEdit" bool,
    .orNull "workspaceEdit" (record "WorkspaceEditClientCapabilities" [
      .orNull "documentChanges" bool,
      .orNull "resourceOperations" (Shape.list (oneOf ["create", "rename", "delete"])),
      .orNull "failureHandling"
        (Shape.list (oneOf ["abort", "transactional", "textOnlyTransactional", "undo"])),
      .orNull "normalizesLineEndings" bool,
      .orNull "changeAnnotationSupport"
        (switchRecord "ChangeAnnotationWorkspaceEditClientCapabilities" ["groupsOnLabel"])]),
    .orNull "didChangeConfiguration" dynamicRegistration,
    .orNull "didChangeWatchedFiles" (switchRecord "DidChangeWatchedFilesClientCapabilities"
      ["dynamicRegistration", "relativePatternSupport"]),
    .orNull "symbol" (record "WorkspaceSymbolClientCapabilities" [
      .orNull "dynamicRegistration" bool,
      .orNull "symbolKind" (valueSet "SymbolKindCapability" false i32),
      tagSupport,
      .orNull "resolveSupport" (properties "WorkspaceSymbolResolveSupportCapability")]),
    .orNull "executeCommand" dynamicRegistration,
    .orNull "workspaceFolders" bool,
    .orNull "configuration" bool,
    .orNull "semanticTokens"
      (switchRecord "SemanticTokensWorkspaceClientCapabilities" ["refreshSupport"]),
    .orNull "codeLens" (switchRecord "CodeLensWorkspaceClientCapabilities" ["refreshSupport"]),
    .orNull "fileOperations" (switchRecord "WorkspaceFileOperationsClientCapabilities"
      ["dynamicRegistration", "didCreate", "willCreate", "didRename", "willRename", "didDelete",
        "willDelete"]),
    .orNull "inlineValue"
      (switchRecord "InlineValueWorkspaceClientCapabilities" ["refreshSupport"]),
    .orNull "inlayHint" (switchRecord "InlayHintWorkspaceClientCapabilities" ["refreshSupport"]),
    .orNull "diagnostic" (switchRecord "DiagnosticWorkspaceClientCapabilities" ["refreshSupport"])]

/-- What a client can do with the items that complete a text. -/
def completion : Shape :=
  record "CompletionClientCapabilities" [
    .orNull "dynamicRegistration" bool,
    .orNull "completionItem" (record "CompletionItemCapability" (
      switches ["snippetSupport", "commitCharactersSupport"]
        ++ [.orNull "documentationFormat" (Shape.list markup)]
        ++ switches ["deprecatedSupport", "preselectSupport"]
        ++ [tagSupport]
        ++ switches ["insertReplaceSupport"]
        ++ [.orNull "resolveSupport" (properties "CompletionItemCapabilityResolveSupport"),
          .orNull "insertTextModeSupport" (valueSet "InsertTextModeSupport" true i32)]
        ++ switches ["labelDetailsSupport"])),
    .orNull "completionItemKind" (valueSet "CompletionItemKindCapability" false i32),
    .orNull "contextSupport" bool,
    .orNull "insertTextMode" i32,
    .orNull "completionList" (record "CompletionListCapability" [
      .orNull "itemDefaults" (Shape.list string)])]

/-- What a client can do with actions on code. -/
def codeAction : Shape :=
  record "CodeActionClientCapabilities" [
    .orNull "dynamicRegistration" bool,
    .orNull "codeActionLiteralSupport" (record "CodeActionLiteralSupport" [
      .required "codeActionKind" (valueSet "CodeActionKindLiteralSupport" true string)]),
    .orNull "isPreferredSupport" bool,
    .orNull "disabledSupport" bool,
    .orNull "dataSupport" bool,
    .orNull "resolveSupport" (properties "CodeActionCapabilityResolveSupport"),
    .orNull "honorsChangeAnnotations" bool]

/-- Whether a client asks for the kinds of all words, or for the changes of them. The latter is said
by an object, not by a list. -/
def fullTokens : Shape :=
  either "SemanticTokensFullOptions" bool fun j =>
    if j.isObject then switchRecord "Delta" ["delta"] j else .error (.invalidType j.found "a map")

/-- What a client can do with the kinds of words in a text. -/
def semanticTokens : Shape :=
  record "SemanticTokensClientCapabilities" [
    .orNull "dynamicRegistration" bool,
    .required "requests" (record "SemanticTokensClientCapabilitiesRequests" [
      .orNull "range" bool,
      .orNull "full" fullTokens]),
    .required "tokenTypes" (Shape.list string),
    .required "tokenModifiers" (Shape.list string),
    .required "formats" (Shape.list (oneOf ["relative"])),
    .orNull "overlappingTokenSupport" bool,
    .orNull "multilineTokenSupport" bool,
    .orNull "serverCancelSupport" bool,
    .orNull "augmentsSyntaxTokens" bool]

/-- What a client can do with the place where something is defined. -/
def goto : Shape := switchRecord "GotoCapability" ["dynamicRegistration", "linkSupport"]

/-- What a client can do with a document. -/
def textDocument : Shape :=
  record "TextDocumentClientCapabilities" [
    .orNull "synchronization" (switchRecord "TextDocumentSyncClientCapabilities"
      ["dynamicRegistration", "willSave", "willSaveWaitUntil", "didSave"]),
    .orNull "completion" completion,
    .orNull "hover" (record "HoverClientCapabilities" [
      .orNull "dynamicRegistration" bool,
      .orNull "contentFormat" (Shape.list markup)]),
    .orNull "signatureHelp" (record "SignatureHelpClientCapabilities" [
      .orNull "dynamicRegistration" bool,
      .orNull "signatureInformation" (record "SignatureInformationSettings" [
        .orNull "documentationFormat" (Shape.list markup),
        .orNull "parameterInformation"
          (switchRecord "ParameterInformationSettings" ["labelOffsetSupport"]),
        .orNull "activeParameterSupport" bool]),
      .orNull "contextSupport" bool]),
    .orNull "references" dynamicRegistration,
    .orNull "documentHighlight" dynamicRegistration,
    .orNull "documentSymbol" (record "DocumentSymbolClientCapabilities" [
      .orNull "dynamicRegistration" bool,
      .orNull "symbolKind" (valueSet "SymbolKindCapability" false i32),
      .orNull "hierarchicalDocumentSymbolSupport" bool,
      tagSupport]),
    .orNull "formatting" dynamicRegistration,
    .orNull "rangeFormatting" dynamicRegistration,
    .orNull "onTypeFormatting" dynamicRegistration,
    .orNull "declaration" goto,
    .orNull "definition" goto,
    .orNull "typeDefinition" goto,
    .orNull "implementation" goto,
    .orNull "codeAction" codeAction,
    .orNull "codeLens" dynamicRegistration,
    .orNull "documentLink" (switchRecord "DocumentLinkClientCapabilities"
      ["dynamicRegistration", "tooltipSupport"]),
    .orNull "colorProvider" dynamicRegistration,
    .orNull "rename" (record "RenameClientCapabilities" [
      .orNull "dynamicRegistration" bool,
      .orNull "prepareSupport" bool,
      .orNull "prepareSupportDefaultBehavior" i32,
      .orNull "honorsChangeAnnotations" bool]),
    .orNull "publishDiagnostics" (record "PublishDiagnosticsClientCapabilities" (
      switches ["relatedInformation"]
        ++ [tagSupport]
        ++ switches ["versionSupport", "codeDescriptionSupport", "dataSupport"])),
    .orNull "foldingRange" (record "FoldingRangeClientCapabilities" [
      .orNull "dynamicRegistration" bool,
      .orNull "rangeLimit" u32,
      .orNull "lineFoldingOnly" bool,
      .orNull "foldingRangeKind" (valueSet "FoldingRangeKindCapability" false
        (oneOf ["comment", "imports", "region"])),
      .orNull "foldingRange" (switchRecord "FoldingRangeCapability" ["collapsedText"])]),
    .orNull "selectionRange"
      (switchRecord "SelectionRangeClientCapabilities" ["dynamicRegistration"]),
    .orNull "linkedEditingRange" dynamicRegistration,
    .orNull "callHierarchy" dynamicRegistration,
    .orNull "semanticTokens" semanticTokens,
    .orNull "moniker" dynamicRegistration,
    .orNull "typeHierarchy" dynamicRegistration,
    .orNull "inlineValue" dynamicRegistration,
    .orNull "inlayHint" (record "InlayHintClientCapabilities" [
      .orNull "dynamicRegistration" bool,
      .orNull "resolveSupport" (properties "InlayHintResolveClientCapabilities")]),
    .orNull "diagnostic" (switchRecord "DiagnosticClientCapabilities"
      ["dynamicRegistration", "relatedDocumentSupport"])]

/-- What a client can do with its windows. -/
def window : Shape :=
  record "WindowClientCapabilities" [
    .orNull "workDoneProgress" bool,
    .orNull "showMessage" (record "ShowMessageRequestClientCapabilities" [
      .orNull "messageActionItem"
        (switchRecord "MessageActionItemCapabilities" ["additionalPropertiesSupport"])]),
    .orNull "showDocument" (record "ShowDocumentClientCapabilities" [.required "support" bool])]

/-- What a client can do at all. -/
def general : Shape :=
  record "GeneralClientCapabilities" [
    .orNull "regularExpressions" (record "RegularExpressionsClientCapabilities" [
      .required "engine" string, .orNull "version" string]),
    .orNull "markdown" (record "MarkdownClientCapabilities" [
      .required "parser" string, .orNull "version" string,
      .orNull "allowedTags" (Shape.list string)]),
    .orNull "staleRequestSupport" (record "StaleRequestSupportClientCapabilities" [
      .required "cancel" bool, .required "retryOnContentModified" (Shape.list string)]),
    .orNull "positionEncodings" (Shape.list string)]

/-- What a client can do with notebooks. -/
def notebookDocument : Shape :=
  record "NotebookDocumentClientCapabilities" [
    .required "synchronization" (switchRecord "NotebookDocumentSyncClientCapabilities"
      ["dynamicRegistration", "executionSummarySupport"])]

/-- The capabilities of a client. -/
def shape : Shape :=
  record "ClientCapabilities" [
    .orNull "workspace" workspace,
    .orNull "textDocument" textDocument,
    .orNull "notebookDocument" notebookDocument,
    .orNull "window" window,
    .orNull "general" general,
    .orNull "experimental" any]

end ClientCapabilities

end ConnectorCatalog
