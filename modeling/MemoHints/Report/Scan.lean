import MemoHints.FileTree.Basic

/-!
# Source files of a workspace

The files below a folder whose extension is wanted. Folders with an excluded name are passed over at
any depth, and so are links, so the walk ends in every tree.
-/

namespace MemoHints

/-- What is looked for, and where not. -/
structure ScanFilter where
  extensions : List String
  excludes : List String
deriving DecidableEq

namespace ScanFilter

def defaultExtensions : List String := [".js", ".jsx", ".ts", ".tsx", ".mjs", ".cjs"]

def defaultExcludes : List String :=
  ["node_modules", ".git", "dist", "build", "out", "coverage", ".next", ".turbo"]

/-- Whether a file of that name is looked for. -/
def wants (filter : ScanFilter) (name : Name) : Bool :=
  match (FilePath.mk name).dottedExtension with
  | some extension => filter.extensions.contains extension
  | none => false

/-- Whether a folder of that name is passed over. A name that is no text never is. -/
def skips (filter : ScanFilter) (name : Name) : Bool :=
  match Text.Utf8.decode? name with
  | some name => filter.excludes.contains name
  | none => false

end ScanFilter

/-- The files looked for in a folder that lies at `dir`. -/
def Entry.sources (filter : ScanFilter) (dir : FilePath) : Entry → List FilePath
  | .folder members => ofMembers dir members
  | .file _ _ | .link _ => []
where
  ofMembers (dir : FilePath) : List (Name × Entry) → List FilePath
    | [] => []
    | (name, .file _ _) :: rest =>
      if filter.wants name then dir.join ⟨name⟩ :: ofMembers dir rest else ofMembers dir rest
    | (name, .folder members) :: rest =>
      if filter.skips name then ofMembers dir rest
      else ofMembers (dir.join ⟨name⟩) members ++ ofMembers dir rest
    | (_, .link _) :: rest => ofMembers dir rest
  termination_by members => sizeOf members
  decreasing_by all_goals simp +arith

/-- The source files below a root; none when the root is no folder. -/
def FileTree.sourceFiles (tree : FileTree) (root : FilePath) (filter : ScanFilter) :
    List FilePath :=
  match tree.entry root with
  | .ok e => e.sources filter root
  | .error _ => []

/-- A walk under way: the folders that are still to be listed, the next one first, and the files
that were found. -/
structure Scan where
  stack : List FilePath
  files : List FilePath

namespace Scan

def start (root : FilePath) : Scan := { stack := [root], files := [] }

/-- Looks at an entry of the folder that lies at `dir`. -/
def visit (filter : ScanFilter) (dir : FilePath) (scan : Scan) : Name × Entry → Scan
  | (name, .folder _) =>
    if filter.skips name then scan else { scan with stack := dir.join ⟨name⟩ :: scan.stack }
  | (name, .file _ _) =>
    let path := dir.join ⟨name⟩
    match path.dottedExtension with
    | some extension =>
      if filter.extensions.contains extension then { scan with files := scan.files ++ [path] }
      else scan
    | none => scan
  | (_, .link _) => scan

/-- One round of the loop: the next folder is listed, in whatever order the system gives its
entries, and what leads to no folder is passed over. -/
inductive Step (tree : FileTree) (filter : ScanFilter) : Scan → Scan → Prop where
  | passed {dir : FilePath} {stack files : List FilePath} : tree.isFolder dir = false →
    Step tree filter ⟨dir :: stack, files⟩ ⟨stack, files⟩
  | listed {dir : FilePath} {stack files : List FilePath} {members entries : List (Name × Entry)} :
    tree.entry dir = .ok (.folder members) → entries.Perm members →
    Step tree filter ⟨dir :: stack, files⟩ (entries.foldl (visit filter dir) ⟨stack, files⟩)

end Scan

/-- The text of a file. -/
def FileTree.readText (tree : FileTree) (p : FilePath) : Except String String :=
  match tree.entry p with
  | .error fault => .error fault.message
  | .ok (.file content _) =>
    match Text.Utf8.decode? content with
    | some text => .ok text
    | none => .error "stream did not contain valid UTF-8"
  | .ok _ => .error "Is a directory (os error 21)"

end MemoHints
