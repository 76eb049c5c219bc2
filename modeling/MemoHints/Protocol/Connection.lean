import MemoHints.Json.Printer
import MemoHints.Protocol.Introduction
import MemoHints.Protocol.Rpc
import MemoHints.Server.Command

/-!
# Connections

A server at the end of a connection. The connection begins with an introduction and ends with a
shutdown and an exit; requests at any other time are refused, and notifications are passed over.
Each message leads to at most one answer and to some messages of the server's own.
-/

namespace MemoHints.Protocol

open Json Rpc

/-- How far a connection has come. -/
inductive Phase where
  | fresh
  | ready
  | shutDown
  | exited
deriving DecidableEq

structure Connection where
  phase : Phase := .fresh
  server : Server := {}
  /-- How many requests the server has sent. -/
  sentCalls : Nat := 0

/-- What a message leads to. -/
structure Turn where
  response : Option Json := none
  sent : List Json := []
  connection : Connection

/-- What handling a message leads to when nothing is wrong with it. -/
structure Outcome where
  result : Json := .null
  sent : List Json := []
  connection : Connection

/-- Handles the parameters of a message. -/
abbrev Handler := Connection → Option Json → Except RpcError Outcome

/-- The parameters of a message, which must have some. -/
def readParams {α : Type} (read : Read α) (params : Option Json) : Except RpcError α :=
  match params with
  | none => .error (.invalidParams "Missing params field")
  | some v => (read v.sorted).mapError fun e => .invalidParams e.message

/-- The address that was read. -/
def uriOf (uri : Option Uri) : Except RpcError Uri :=
  (required "uri" uri).mapError fun e => .invalidParams e.message

/-! ## Messages of the server -/

/-- A line for the editor's log. -/
def logMessage (text : String) : Json :=
  notification "window/logMessage" (.obj [("type", .nat 3), ("message", .str text)])

def refreshMethod : String := "workspace/inlayHint/refresh"

def progressMethod : String := "react-compiler-marker/reportProgress"

/-- Asks the editor to request its hints again. -/
def Connection.refresh (connection : Connection) : List Json × Connection :=
  ([call connection.sentCalls refreshMethod .null],
    { connection with sentCalls := connection.sentCalls + 1 })

/-- The name that log lines give a dialect. -/
def markupTitle : Markup → String
  | .markdown => "Markdown"
  | .html => "Html"

/-- What is logged of an introduction. -/
def greeting (client : Option String) (session : ClientSession) : String :=
  "Client connected: " ++ client.getD "Unknown" ++
    " (tooltipFormat: " ++ markupTitle session.markup ++
    ", hover: " ++ (if session.profile.hoverEnabled then "enabled" else "disabled") ++
    ", workspace: " ++ (session.root.map FilePath.display).getD "none" ++ ")"

/-- What the server says it can do. Documents are sent whole; hovers are offered where hints do not
show their tooltips. -/
def capabilities (session : ClientSession) : Json :=
  .obj [("textDocumentSync", .nat 1), ("inlayHintProvider", .bool true),
    ("hoverProvider", .bool session.profile.hoverEnabled),
    ("executeCommandProvider",
      .obj [("commands", .arr (Command.all.map fun command => .str command.name))])]

/-- What the server says of itself. -/
def serverInfo : Json :=
  .obj [("name", .str "React Compiler Marker LSP"), ("version", .str "0.1.0")]

/-! ## Handlers -/

/-- The editor introduces itself. -/
def onInitialize : Handler := fun connection params => do
  let intro ← readParams Introduction.ofJson params
  let session := intro.session
  return {
    result := .obj [("capabilities", capabilities session), ("serverInfo", serverInfo)]
    sent := [logMessage (greeting intro.client session)]
    connection := { connection with phase := .ready, server := connection.server.welcome session } }

/-- The editor has read the introduction of the server. -/
def onInitialized : Handler := fun connection params => do
  readParams (readSomeRecord "InitializedParams") params
  return { sent := [logMessage "React Compiler Marker LSP Server initialized"], connection }

def onOpen : Handler := fun connection params => do
  let document ← readParams OpenedDocument.paramsType.read params
  let uri ← uriOf document.uri
  let (_, server) :=
    connection.server.sync uri document.languageId document.version document.text
  return { connection := { connection with server } }

/-- Of several changes the last one counts. -/
def onChange : Handler := fun connection params => do
  let document ← readParams ChangedDocument.paramsType.read params
  let uri ← uriOf document.uri
  match document.texts.getLast? with
  | none => return { connection }
  | some text =>
    let (_, server) := connection.server.sync uri "" document.version text
    return { connection := { connection with server } }

def onClose : Handler := fun connection params => do
  let uri ← uriOf (← readParams closedType.read params)
  return { connection := { connection with server := connection.server.close uri } }

/-- Settings that do not mention this server change nothing, yet hints are refreshed. -/
def onConfiguration : Handler := fun connection params => do
  let v ← readParams configurationType.read params
  let (moved, server) := match Settings.ofChange? v with
    | some settings => connection.server.applySettings settings
    | none => (false, connection.server)
  let (sent, connection) := { connection with server }.refresh
  let logged := if moved then
      [logMessage "babel-plugin-react-compiler path changed, cleared cached results"]
    else []
  return { sent := logged ++ sent, connection }

def onInlayHint (around : Surroundings) : Handler := fun connection params => do
  let lines ← readParams (readWithToken inlayHintType) params
  let uri ← uriOf lines.uri
  let step := connection.server.hintsBetween around uri lines.first lines.last
  return {
    result := ofOption (fun hints => .arr (hints.map Hint.toInlayJson)) step.answer
    connection := { connection with server := step.server } }

/-- A tooltip as editors take it. -/
def hoverJson (tooltip : Tooltip) : Json :=
  .obj [("contents", .obj [("kind", .str "markdown"), ("value", .str tooltip.value)])]

def onHover (around : Surroundings) : Handler := fun connection params => do
  let lines ← readParams (readWithToken hoverType) params
  let uri ← uriOf lines.uri
  let step := connection.server.hover around uri lines.first
  return {
    result := ofOption hoverJson step.answer
    connection := { connection with server := step.server } }

def onCommand (around : Surroundings) : Handler := fun connection params => do
  let command ← readParams (readWithToken commandType) params
  let step := connection.server.executeNamed around command.command command.arguments
  let connection := { connection with server := step.server }
  let (sent, connection) := if step.refreshHints then connection.refresh else ([], connection)
  return {
    result := step.answer.toJson
    sent := sent ++ step.progress.map fun p => notification progressMethod p.toJson
    connection }

/-! ## Methods -/

/-- What the parameters of a request that the server has no answer to are read for; the text is the
name of their record. -/
inductive Subject where
  | place (record : String)
  | document (record : String)
  | anything

/-- Reads the parameters of such a request. -/
def Subject.read : Subject → Read Unit
  | .place record => fun v => (readWithToken { hoverType with name := record } v).map fun _ => ()
  | .document record => fun v =>
    (readWithToken { closedType with name := record } v).map fun _ => ()
  | .anything => fun _ => .ok ()

/-- A request that the protocol has and the server does not. -/
def onUnsupported (subject : Subject) : Handler := fun _ params => do
  readParams subject.read params
  .error (.methodNotFound none)

/-- The requests of the protocol that the server has no answer to. -/
def unsupportedRequests : List (String × Subject) :=
  [("textDocument/declaration", .place "GotoDefinitionParams"),
    ("textDocument/definition", .place "GotoDefinitionParams"),
    ("textDocument/implementation", .place "GotoDefinitionParams"),
    ("textDocument/typeDefinition", .place "GotoDefinitionParams"),
    ("textDocument/completion", .place "CompletionParams"),
    ("textDocument/documentHighlight", .place "DocumentHighlightParams"),
    ("textDocument/linkedEditingRange", .place "LinkedEditingRangeParams"),
    ("textDocument/moniker", .place "MonikerParams"),
    ("textDocument/prepareCallHierarchy", .place "CallHierarchyPrepareParams"),
    ("textDocument/prepareTypeHierarchy", .place "TypeHierarchyPrepareParams"),
    ("textDocument/signatureHelp", .place "SignatureHelpParams"),
    ("textDocument/codeLens", .document "CodeLensParams"),
    ("textDocument/documentColor", .document "DocumentColorParams"),
    ("textDocument/documentLink", .document "DocumentLinkParams"),
    ("textDocument/documentSymbol", .document "DocumentSymbolParams"),
    ("textDocument/foldingRange", .document "FoldingRangeParams"),
    ("textDocument/semanticTokens/full", .document "SemanticTokensParams")] ++
  ["callHierarchy/incomingCalls", "callHierarchy/outgoingCalls", "codeAction/resolve",
    "codeLens/resolve", "completionItem/resolve", "documentLink/resolve", "inlayHint/resolve",
    "textDocument/codeAction", "textDocument/colorPresentation", "textDocument/diagnostic",
    "textDocument/formatting", "textDocument/inlineValue", "textDocument/onTypeFormatting",
    "textDocument/prepareRename", "textDocument/rangeFormatting", "textDocument/references",
    "textDocument/rename", "textDocument/selectionRange",
    "textDocument/semanticTokens/full/delta", "textDocument/semanticTokens/range",
    "textDocument/willSaveWaitUntil", "typeHierarchy/subtypes", "typeHierarchy/supertypes",
    "workspace/diagnostic", "workspace/symbol", "workspace/willCreateFiles",
    "workspace/willDeleteFiles", "workspace/willRenameFiles", "workspaceSymbol/resolve"].map
      fun name => (name, .anything)

/-- The notifications of the protocol that do not matter to the server. -/
def unusedNotifications : List String :=
  ["textDocument/didSave", "textDocument/willSave", "workspace/didChangeWatchedFiles",
    "workspace/didChangeWorkspaceFolders", "workspace/didCreateFiles",
    "workspace/didDeleteFiles", "workspace/didRenameFiles"]

/-- What is known of a method: how it is handled, and whether its messages are requests. -/
structure Method where
  isRequest : Bool
  handler : Handler

/-- The method of a name, apart from those that begin and end a connection. -/
def method? (around : Surroundings) (name : String) : Option Method :=
  match name with
  | "initialized" => some ⟨false, onInitialized⟩
  | "textDocument/didOpen" => some ⟨false, onOpen⟩
  | "textDocument/didChange" => some ⟨false, onChange⟩
  | "textDocument/didClose" => some ⟨false, onClose⟩
  | "workspace/didChangeConfiguration" => some ⟨false, onConfiguration⟩
  | "textDocument/inlayHint" => some ⟨true, onInlayHint around⟩
  | "textDocument/hover" => some ⟨true, onHover around⟩
  | "workspace/executeCommand" => some ⟨true, onCommand around⟩
  | name =>
    match unsupportedRequests.lookup name with
    | some subject => some ⟨true, onUnsupported subject⟩
    | none =>
      if name ∈ unusedNotifications then some ⟨false, fun connection _ => .ok { connection }⟩
      else none

namespace Connection

/-- Refuses a request; a notification is passed over. -/
def refuse (connection : Connection) (request : Request) (e : RpcError) : Turn :=
  { response := request.id.map fun id => response id (.error e), connection }

/-- Hands a request to its handler, which answers it. A message of the other kind than its method is
passed over. -/
def run (connection : Connection) (request : Request) (handler : Handler) : Turn :=
  match request.id with
  | none => { connection }
  | some id =>
    match handler connection request.params with
    | .ok outcome =>
      { response := some (response id (.ok outcome.result)), sent := outcome.sent
        connection := outcome.connection }
    | .error e => connection.refuse request e

/-- Hands a notification to its handler. One whose parameters cannot be read is passed over. -/
def notify (connection : Connection) (request : Request) (handler : Handler) : Turn :=
  match request.id with
  | some _ => { connection }
  | none =>
    match handler connection request.params with
    | .ok outcome => { sent := outcome.sent, connection := outcome.connection }
    | .error _ => { connection }

/-- The first message. Without a good introduction the connection stays as it is. -/
def introduce (connection : Connection) (request : Request) : Turn :=
  if connection.phase = .fresh then connection.run request onInitialize
  else connection.refuse request .invalidRequest

/-- A shutdown has no parameters. -/
def onShutdown : Handler := fun connection params =>
  match params with
  | none => .ok { connection }
  | some v => .error (.invalidParams ("Unexpected params: " ++ v.sorted.compact))

/-- Why a request is refused in a phase, if it is. -/
def refusal? : Phase → Option RpcError
  | .fresh => some .notReady
  | .ready => none
  | .shutDown | .exited => some .invalidRequest

/-- The last request. -/
def shutDown (connection : Connection) (request : Request) : Turn :=
  match refusal? connection.phase with
  | some e => connection.refuse request e
  | none => { connection with phase := .shutDown }.run request onShutdown

/-- Any other message. Methods that only some editors and servers know are passed over; their names
begin with a dollar sign. -/
def dispatch (around : Surroundings) (connection : Connection) (request : Request) : Turn :=
  match method? around request.method with
  | some method =>
    match refusal? connection.phase with
    | some e => connection.refuse request e
    | none =>
      if method.isRequest then connection.run request method.handler
      else connection.notify request method.handler
  | none =>
    if request.method.startsWith "$/" then { connection }
    else connection.refuse request (.methodNotFound (some request.method))

/-- Takes a message. There is nothing to take it once the connection has ended. -/
def take (around : Surroundings) (connection : Connection) (request : Request) : Option Turn :=
  if connection.phase = .exited then none
  else some (match request.method with
    | "initialize" => connection.introduce request
    | "shutdown" => connection.shutDown request
    | "exit" => { connection := { connection with phase := .exited } }
    | _ => connection.dispatch around request)

end Connection

end MemoHints.Protocol
