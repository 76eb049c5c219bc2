import MemoHints.FileTree.Basic

/-!
# Where the compiler plugin is

The plugin is looked for in the workspace first, and then where the server brought its own copy. A
search that fails keeps what was tried.
-/

namespace MemoHints

/-- Whose copy of the plugin it is. -/
inductive PluginSource where
  | workspace
  | bundled
deriving DecidableEq

def PluginSource.name : PluginSource → String
  | .workspace => "workspace"
  | .bundled => "bundled"

/-- A place that held no plugin. -/
structure ResolveAttempt where
  source : PluginSource
  path : Option FilePath
  reason : String
deriving DecidableEq

/-- The attempt as a message gives it. -/
def ResolveAttempt.display (attempt : ResolveAttempt) : String :=
  match attempt.path with
  | some path => attempt.source.name ++ " (" ++ path.display ++ "): " ++ attempt.reason
  | none => attempt.source.name ++ ": " ++ attempt.reason

/-- Where to look: below the root of the workspace at a hint. -/
structure PluginLocation where
  root : Option FilePath
  hint : FilePath
deriving DecidableEq

/-- A plugin that was found. -/
structure FoundPlugin where
  path : FilePath
  source : PluginSource
deriving DecidableEq

/-- Looks at one place. -/
def tryPlugin (tree : FileTree) (source : PluginSource) (missing : String)
    (place : Option FilePath) : Except ResolveAttempt FoundPlugin :=
  match place with
  | none => .error ⟨source, none, missing⟩
  | some path =>
    if tree.contains path then .ok ⟨path, source⟩
    else .error ⟨source, some path, "path does not exist"⟩

/-- The place in the workspace. -/
def PluginLocation.candidate (location : PluginLocation) : Option FilePath :=
  location.root.map (·.join location.hint)

/-- Looks in the workspace, then at the bundled copy. -/
def resolvePlugin (tree : FileTree) (location : PluginLocation) (bundled : Option FilePath) :
    Except (List ResolveAttempt) FoundPlugin :=
  match tryPlugin tree .workspace "no workspace folder" location.candidate with
  | .ok found => .ok found
  | .error first =>
    match tryPlugin tree .bundled "no bundled plugin configured" bundled with
    | .ok found => .ok found
    | .error second => .error [first, second]

end MemoHints
