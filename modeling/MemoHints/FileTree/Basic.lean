import MemoHints.FilePath

/-!
# Trees of files

Files, folders and symbolic links, and what the paths into them lead to. A path is followed one
segment at a time: links are resolved where they are met, and `..` leaves the folder that was
reached, not the name that was written.
-/

namespace MemoHints

/-- The name of an entry in its folder. -/
abbrev Name := List UInt8

/-- What a name stands for. -/
inductive Entry where
  | file (content : List UInt8) (executable : Bool)
  | folder (members : List (Name × Entry))
  | link (target : FilePath)

/-- Why a path leads nowhere. -/
inductive Fault where
  | notFound
  | noPermission
  | notFolder
  | tooManyLinks
  /-- The path has a byte that no path may have. -/
  | zeroByte
deriving DecidableEq

/-- The system's words for a fault. -/
def Fault.message : Fault → String
  | .notFound => "No such file or directory (os error 2)"
  | .noPermission => "Permission denied (os error 13)"
  | .notFolder => "Not a directory (os error 20)"
  | .tooManyLinks => "Too many levels of symbolic links (os error 40)"
  | .zeroByte => "nul byte found in provided data"

namespace Entry

/-- The entry of that name in a folder. -/
def member? (name : Name) : Entry → Option Entry
  | .folder members => members.lookup name
  | _ => none

/-- The entry below at the end of a list of names; links are not followed. -/
def at? : List Name → Entry → Option Entry
  | [], e => some e
  | name :: rest, e =>
    match e.member? name with
    | some m => at? rest m
    | none => none

def isFolder : Entry → Bool
  | .folder _ => true
  | _ => false

/-- Puts an entry into members under a name, in place of one that has it. -/
def putMember (name : Name) (e : Entry) : List (Name × Entry) → List (Name × Entry)
  | [] => [(name, e)]
  | (k, v) :: rest => if k = name then (name, e) :: rest else (k, v) :: putMember name e rest

/-- Puts `e` at the end of a list of names, making the folders on the way. -/
def put (e : Entry) : List Name → Entry → Entry
  | [], _ => e
  | name :: rest, .folder members =>
    .folder (putMember name (put e rest ((members.lookup name).getD (.folder []))) members)
  | name :: rest, _ => .folder [(name, put e rest (.folder []))]

/-- Takes away the entry at the end of a list of names. -/
def erase : List Name → Entry → Entry
  | [], e => e
  | [name], .folder members => .folder (members.filter (·.1 ≠ name))
  | name :: rest, .folder members =>
    match members.lookup name with
    | some m => .folder (putMember name (erase rest m) members)
    | none => .folder members
  | _, e => e

end Entry

/-- A tree of files and the folder that relative paths are seen from. -/
structure FileTree where
  root : Entry
  cwd : List Name

namespace FileTree

/-- The most links that one path may lead through. -/
def maxLinks : Nat := 40

/-- The segments of a path that are steps. A slash at the end asks for a folder. -/
def steps (p : FilePath) : List Name :=
  (FilePath.segments p.bytes).filter (· ≠ []) ++ if p.endsWithSlash then [[FilePath.dot]] else []

/-- Follows steps from a folder. The last step's own link is followed only if `last` says so. -/
def follow (root : Entry) (last : Bool) : Nat → List Name → List Name → Except Fault (List Name)
  | _, here, [] => .ok here
  | links, here, step :: rest =>
    match root.at? here with
    | some (.folder members) =>
      if step = [FilePath.dot] then follow root last links here rest
      else if step = [FilePath.dot, FilePath.dot] then follow root last links here.dropLast rest
      else
        match members.lookup step with
        | none => .error .notFound
        | some (.link target) =>
          if rest.isEmpty && !last then .ok (here ++ [step])
          else if target.isEmpty then .error .notFound
          else
            match links with
            | 0 => .error .tooManyLinks
            | links + 1 =>
              follow root last links (if target.isAbsolute then [] else here)
                (steps target ++ rest)
        | some _ => follow root last links (here ++ [step]) rest
    | some _ => .error .notFolder
    | none => .error .notFound
termination_by links _ rest => (links, rest.length)

/-- The names from the root to what a path leads to. -/
def locate (tree : FileTree) (last : Bool) (p : FilePath) : Except Fault (List Name) :=
  if p.isEmpty then .error .notFound
  else if p.bytes.contains 0 then .error .zeroByte
  else follow tree.root last maxLinks (if p.isAbsolute then [] else tree.cwd) (steps p)

/-- What a path leads to. -/
def entry (tree : FileTree) (p : FilePath) : Except Fault Entry :=
  match tree.locate true p with
  | .error fault => .error fault
  | .ok names =>
    match tree.root.at? names with
    | some e => .ok e
    | none => .error .notFound

/-- Whether a path leads to anything. -/
def contains (tree : FileTree) (p : FilePath) : Bool := (tree.entry p).isOk

/-- Whether a path leads to a folder. -/
def isFolder (tree : FileTree) (p : FilePath) : Bool :=
  match tree.entry p with
  | .ok e => e.isFolder
  | .error _ => false

/-- Puts an entry where a path leads and makes the folders on the way. A folder that is there
stays. -/
def write (tree : FileTree) (p : FilePath) (e : Entry) : FileTree :=
  let names :=
    match tree.locate true p with
    | .ok names => names
    | .error _ => (if p.isAbsolute then [] else tree.cwd) ++ (steps p).filter (· ≠ [FilePath.dot])
  match e, tree.root.at? names with
  | .folder [], some (.folder _) => tree
  | e, _ => { tree with root := Entry.put e names tree.root }

/-- Takes away what a path leads to; a folder that holds something only if `recursive` says so. -/
def remove (tree : FileTree) (recursive : Bool) (p : FilePath) : FileTree :=
  match tree.locate false p with
  | .error _ => tree
  | .ok names =>
    match tree.root.at? names with
    | some (.folder (_ :: _)) =>
      if recursive then { tree with root := tree.root.erase names } else tree
    | _ => { tree with root := tree.root.erase names }

/-- The path made of names from the root on. -/
def pathOf (names : List Name) : FilePath :=
  ⟨if names.isEmpty then [FilePath.slash] else names.flatMap (FilePath.slash :: ·)⟩

/-- The path of the folder that relative paths are seen from. -/
def cwdPath (tree : FileTree) : FilePath := pathOf tree.cwd

/-- The path without links and dots to what a path leads to. -/
def resolved? (tree : FileTree) (p : FilePath) : Option FilePath :=
  (tree.locate true p).toOption.map pathOf

end FileTree

end MemoHints
