import MemoHints.Protocol.Params
import MemoHints.Server.Basic

/-!
# Introductions

The first message of an editor says who it is and where its workspace lies.
-/

namespace MemoHints.Protocol

open Json

/-- How an editor introduces itself. -/
structure Introduction where
  rootUri : Option Uri := none
  options : Option Json := none
  folders : Option (List Uri) := none
  client : Option String := none

namespace Introduction

def folderType : RecordType (Option Uri) where
  name := "WorkspaceFolder"
  fields := [("uri", .always), ("name", .always)]
  default := none
  set folder name v :=
    match name with
    | "uri" => some <$> readUri v
    | "name" => do
      let _ ← readString v
      return folder
    | _ => return folder

/-- The name in what a client says of itself. -/
def clientType : RecordType String where
  name := "ClientInfo"
  fields := [("name", .always), ("version", .inList)]
  default := ""
  set client name v :=
    match name with
    | "name" => readString v
    | "version" => do
      let _ ← readOption readString v
      return client
    | _ => return client

/-- What a client is capable of does not matter here, but must be said. -/
def capabilitiesType : RecordType Unit where
  name := "ClientCapabilities"
  fields := [("workspace", .inList), ("textDocument", .inList), ("window", .inList),
    ("general", .inList), ("experimental", .inList)]
  default := ()
  set _ name v :=
    let readPart (part : String) : Except ReadError Unit := do
      let _ ← readOption (readSomeRecord part) v
    match name with
    | "workspace" => readPart "WorkspaceClientCapabilities"
    | "textDocument" => readPart "TextDocumentClientCapabilities"
    | "window" => readPart "WindowClientCapabilities"
    | "general" => readPart "GeneralClientCapabilities"
    | _ => return ()

def recordType : RecordType Introduction where
  name := "InitializeParams"
  fields := [("processId", .inList), ("rootPath", .inList), ("rootUri", .optional),
    ("initializationOptions", .inList), ("capabilities", .always), ("trace", .optional),
    ("workspaceFolders", .inList), ("clientInfo", .inList), ("locale", .inList)]
  default := {}
  set intro name v :=
    match name with
    | "processId" => do
      let _ ← readOption readWord v
      return intro
    | "rootPath" | "locale" => do
      let _ ← readOption readString v
      return intro
    | "rootUri" => do return { intro with rootUri := ← readOption readUri v }
    | "initializationOptions" => do return { intro with options := ← readOption readAny v }
    | "capabilities" => do
      capabilitiesType.read v
      return intro
    | "trace" => do
      let _ ← readOption (readName ["off", "messages", "verbose"]) v
      return intro
    | "workspaceFolders" => do
      let folders ← readOption (readList folderType.read) v
      return { intro with folders := folders.map fun uris => uris.filterMap fun uri => uri }
    | "clientInfo" => do return { intro with client := ← readOption clientType.read v }
    | _ => return intro

/-- The introduction in a value. -/
def ofJson (v : Json) : Except ReadError Introduction := recordType.read v.sorted

/-- The first of the folders, or the root if there are none. -/
def workspace (intro : Introduction) : Option Uri :=
  (intro.folders.bind List.head?).or intro.rootUri

/-- The editor that introduces itself. A workspace that is no folder on this machine is none. -/
def session (intro : Introduction) : ClientSession :=
  { root := intro.workspace.bind Uri.filePath?
    profile := .ofName intro.client
    markup := .ofOptions intro.options }

end Introduction

end MemoHints.Protocol
