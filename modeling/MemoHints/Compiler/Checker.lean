import MemoHints.Compiler.Basic
import MemoHints.Compiler.Cache

/-!
# Checking documents

A checker finds the plugin, asks the compiler, and keeps the results. It remembers where the plugin
was last, and forgets all results when the plugin is found elsewhere. Checking never fails: when
there is no plugin or no result, there is nothing to show. Failures are not kept.
-/

namespace MemoHints

/-- What a checker keeps between checks. -/
structure Checker where
  bundled : Option FilePath := none
  cache : ResultCache CompileResult := .empty ResultCache.defaultCapacity
  lastResolved : Option FilePath := none

/-- A result that is made and not kept yet. -/
structure Draft where
  text : String
  filename : String
  result : CompileResult

/-- The answer to a call, the requests that the compiler got for it, what was made and is still to
be kept, and the checker after it. -/
structure CheckerStep (α : Type) where
  answer : α
  asked : List CompileRequest := []
  draft : Option Draft := none
  checker : Checker

namespace Checker

/-- Forgets all results. -/
def clearCache (checker : Checker) : Checker := { checker with cache := checker.cache.clear }

/-- Notes where the plugin is. Results are forgotten when it was elsewhere before. -/
def noteResolved (checker : Checker) (path : FilePath) : Checker :=
  match checker.lastResolved with
  | none => { checker with lastResolved := some path }
  | some last =>
    if last.same path then checker
    else { checker.clearCache with lastResolved := some path }

/-- Finds the plugin. -/
def resolve (tree : FileTree) (checker : Checker) (location : PluginLocation) :
    Except CompileError FilePath × Checker :=
  match resolvePlugin tree location checker.bundled with
  | .ok found => (.ok found.path, checker.noteResolved found.path)
  | .error attempts => (.error (.pluginNotFound attempts), checker)

/-- Looks for a kept result. -/
def lookup (checker : Checker) (text filename : String) : Option CompileResult × Checker :=
  let (found, cache) := checker.cache.find text filename
  (found, { checker with cache })

/-- Keeps a result. -/
def keep (checker : Checker) (text filename : String) (result : CompileResult) : Checker :=
  { checker with cache := checker.cache.store text filename result }

/-- Keeps a draft if there is one. -/
def keepDraft (checker : Checker) : Option Draft → Checker
  | some draft => checker.keep draft.text draft.filename draft.result
  | none => checker

/-- The request of a check. -/
def checkRequest (text filename : String) (plugin : FilePath) (root : Option FilePath) :
    CompileRequest :=
  ⟨text, filename, plugin, root, .diagnostics⟩

/-- A check up to the moment at which its own result would be kept. Checks may overlap: a draft of
one before is kept only after this one has found the plugin. -/
def examine (tree : FileTree) (compiler : Compiler) (checker : Checker) (draft : Option Draft)
    (text filename : String) (location : PluginLocation) : CheckerStep (Guarded CompileResult) :=
  match checker.resolve tree location with
  | (.error _, checker) => { answer := .ok {}, checker := checker.keepDraft draft }
  | (.ok plugin, checker) =>
    match (checker.keepDraft draft).lookup text filename with
    | (some result, checker) => { answer := .ok result, checker }
    | (none, checker) =>
      let asked := [checkRequest text filename plugin location.root]
      match compiler.diagnose text filename plugin location.root with
      | .error breakdown => { answer := .error breakdown, asked, checker }
      | .ok (.error _) => { answer := .ok {}, asked, checker }
      | .ok (.ok result) =>
        { answer := .ok result, asked, draft := some ⟨text, filename, result⟩, checker }

/-- The events of a document. -/
def check (tree : FileTree) (compiler : Compiler) (checker : Checker) (text filename : String)
    (location : PluginLocation) : CheckerStep (Guarded CompileResult) :=
  let step := checker.examine tree compiler none text filename location
  { step with draft := none, checker := step.checker.keepDraft step.draft }

/-- The events of a document for a plugin that is already found. Nothing is kept. -/
def runDiagnostics (compiler : Compiler) (checker : Checker) (text filename : String)
    (plugin : FilePath) (root : Option FilePath) :
    CheckerStep (Guarded (Except CompileError CompileResult)) :=
  { answer := compiler.diagnose text filename plugin root
    asked := [checkRequest text filename plugin root]
    checker }

/-- The code generated for a document. -/
def compiledOutput (tree : FileTree) (compiler : Compiler) (checker : Checker)
    (text filename : String) (location : PluginLocation) :
    CheckerStep (Guarded (Except CompileError String)) :=
  match checker.resolve tree location with
  | (.error e, checker) => { answer := .ok (.error e), checker }
  | (.ok plugin, checker) =>
    { answer := compiler.generate text filename plugin location.root
      asked := [⟨text, filename, plugin, location.root, .emit⟩]
      checker }

end Checker

end MemoHints
