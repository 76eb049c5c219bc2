import MemoHints.Event.Json
import MemoHints.Numbers
import MemoHints.Text.Search

/-!
# The tree of a report

Files with their events, in folders that carry the sums of what lies below them. Folders come before
files, each sorted by name. Of two files with one path the first counts.
-/

namespace MemoHints

open Json

/-- The events of one file. -/
structure FileResult where
  path : String
  success : List DiagnosticEvent := []
  failed : List DiagnosticEvent := []

def FileResult.toJson (result : FileResult) : Json :=
  .obj [("path", .str result.path), ("success", .arr (result.success.map DiagnosticEvent.toJson)),
    ("failed", .arr (result.failed.map DiagnosticEvent.toJson))]

/-- A folder or a file of the tree. Paths are seen from the root, whose own path is empty. -/
inductive TreeNode where
  | folder (name path : String) (children : List TreeNode) (successCount failedCount : Nat)
  | file (name path : String) (success failed : List DiagnosticEvent)

namespace TreeNode

def name : TreeNode → String
  | .folder name .. | .file name .. => name

def path : TreeNode → String
  | .folder _ path .. | .file _ path .. => path

def children : TreeNode → List TreeNode
  | .folder _ _ children .. => children
  | .file .. => []

def isFolder : TreeNode → Bool
  | .folder .. => true
  | .file .. => false

def successCount : TreeNode → Nat
  | .folder _ _ _ count _ => count
  | .file _ _ success _ => success.length

def failedCount : TreeNode → Nat
  | .folder _ _ _ _ count => count
  | .file _ _ _ failed => failed.length

/-- The child of a name. -/
def child? (node : TreeNode) (name : String) : Option TreeNode :=
  node.children.find? (·.name = name)

/-- The names on the way to a file. -/
def partsOf (path : String) : List String :=
  ((Text.splitWhere (· = '/') path.toList).filter (· ≠ [])).map String.ofList

/-- The path of a name in the folder at a path. -/
def childPath (path name : String) : String := if path = "" then name else path ++ "/" ++ name

/-- Puts a file into the nodes of the folder at a path. A node that has a name on the way is used,
and one that is a file ends the way. -/
def insert (result : FileResult) : String → List String → List TreeNode → List TreeNode
  | _, [], nodes => nodes
  | path, part :: rest, nodes =>
    let path := childPath path part
    if nodes.any (·.name = part) then
      nodes.map fun node =>
        match node with
        | .folder name p children s f =>
          if name = part then .folder name p (insert result path rest children) s f
          else .folder name p children s f
        | node => node
    else
      nodes ++ [match rest with
        | [] => .file part path result.success result.failed
        | rest => .folder part path (insert result path rest []) 0 0]

/-- The order of nodes in a folder. -/
def precedes (a b : TreeNode) : Bool :=
  match a.isFolder, b.isFolder with
  | true, false => true
  | false, true => false
  | _, _ => !(b.name < a.name)

/-- Sums and sorts at every depth. -/
def settle : TreeNode → TreeNode
  | .folder name path children _ _ =>
    let children := settleAll children
    .folder name path (children.mergeSort precedes)
      (children.map successCount).sum (children.map failedCount).sum
  | .file name path success failed => .file name path success failed
where
  settleAll : List TreeNode → List TreeNode
    | [] => []
    | node :: rest => settle node :: settleAll rest

/-- The nodes before sums and order. -/
def insertAll (files : List FileResult) : List TreeNode :=
  files.foldl (fun nodes file => insert file "" (partsOf file.path) nodes) []

/-- The tree over files. -/
def ofFiles (files : List FileResult) : TreeNode :=
  settle (.folder "root" "" (insertAll files) 0 0)

def toJson : TreeNode → Json
  | .folder name path children successCount failedCount =>
    .obj [("name", .str name), ("path", .str path), ("type", .str "folder"),
      ("children", .arr (allJson children)), ("successCount", .nat successCount),
      ("failedCount", .nat failedCount)]
  | .file name path success failed =>
    .obj [("name", .str name), ("path", .str path), ("type", .str "file"),
      ("successCount", .nat success.length), ("failedCount", .nat failed.length),
      ("success", .arr (success.map DiagnosticEvent.toJson)),
      ("failed", .arr (failed.map DiagnosticEvent.toJson))]
where
  allJson : List TreeNode → List Json
    | [] => []
    | node :: rest => toJson node :: allJson rest

end TreeNode

end MemoHints
