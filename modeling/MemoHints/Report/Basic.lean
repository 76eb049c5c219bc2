import MemoHints.Compiler.Checker
import MemoHints.Report.Progress
import MemoHints.Report.Scan
import MemoHints.Report.Tree
import MemoHints.Report.Workers
import MemoHints.Settings

/-!
# Reports

A report compiles every source file of a workspace and gathers the events, file by file and in a
tree. A file that cannot be read or compiled becomes an error of its own and spoils nothing else.

The files are scanned by workers whose threads are assumed to start, so a scan has no error of its
own.
-/

namespace MemoHints

open Json

/-- What a report is made of. -/
structure ReportOptions where
  root : FilePath
  hint : FilePath
  maxConcurrency : Option Nat := none
  includeExtensions : Option (List String) := none
  excludeDirs : Option (List String) := none

namespace ReportOptions

def ofSettings (root : FilePath) (settings : Settings) : ReportOptions :=
  { root
    hint := .ofString settings.pluginPath
    maxConcurrency := settings.maxConcurrency
    includeExtensions := settings.includeExtensions
    excludeDirs := settings.excludeDirs }

/-- Which files are scanned. Wanted extensions are compared in lower case. -/
def filter (options : ReportOptions) : ScanFilter :=
  { extensions :=
      (options.includeExtensions.getD ScanFilter.defaultExtensions).map Text.lowercase
    excludes := options.excludeDirs.getD ScanFilter.defaultExcludes }

end ReportOptions

/-- The numbers of a report. -/
structure Totals where
  filesScanned : Nat
  filesWithResults : Nat
  compiledFiles : Nat
  failedFiles : Nat
  successCount : Nat
  failedCount : Nat
deriving DecidableEq

def Totals.toJson (totals : Totals) : Json :=
  .obj [("filesScanned", .nat totals.filesScanned),
    ("filesWithResults", .nat totals.filesWithResults),
    ("compiledFiles", .nat totals.compiledFiles), ("failedFiles", .nat totals.failedFiles),
    ("successCount", .nat totals.successCount), ("failedCount", .nat totals.failedCount)]

/-- A file without a result. -/
structure ScanError where
  path : String
  message : String
deriving DecidableEq

def ScanError.toJson (e : ScanError) : Json :=
  .obj [("path", .str e.path), ("message", .str e.message)]

structure Report where
  generatedAt : String
  totals : Totals
  files : List FileResult
  errors : List ScanError
  tree : TreeNode

def Report.toJson (report : Report) : Json :=
  .obj [("generatedAt", .str report.generatedAt), ("totals", report.totals.toJson),
    ("files", .arr (report.files.map FileResult.toJson)),
    ("errors", .arr (report.errors.map ScanError.toJson)), ("tree", report.tree.toJson)]

/-- Why there is no report. -/
inductive ReportError where
  | emptyRoot
  | notFolder (root : FilePath)
  | compiler (e : CompileError)

def ReportError.message : ReportError → String
  | .emptyRoot => "cannot make an empty path absolute"
  | .notFolder root => root.display ++ " is not a directory"
  | .compiler e => e.message

/-- The surroundings of a report: the time, as it is written in the report and as it is counted, and
how many workers there are unless the options say. -/
structure ReportContext where
  generatedAt : String
  /-- The time, in nanoseconds, when so many files are done. -/
  clock : Nat → Nat := fun _ => 0
  workers : Nat := 1

/-- What the workers of a scan share. -/
structure ScanState where
  asked : List CompileRequest := []
  meter : ProgressMeter

/-- What becomes of a file. -/
abbrev ScanOutcome := Except ScanError FileResult

/-- The outcome of a compilation for the file at a path. -/
def scanOutcome (path : String) : Except CompileError CompileResult → ScanOutcome
  | .ok result => .ok ⟨path, result.successful, result.failed⟩
  | .error e => .error ⟨path, e.message⟩

/-- Reads and compiles one file. -/
def scanFile (tree : FileTree) (compiler : Compiler) (root plugin : FilePath) (clock : Nat → Nat)
    (file : FilePath) (s : ScanState) : Guarded ScanOutcome × ScanState :=
  let path := root.relativeText file
  match tree.readText file with
  | .error message => (.ok (.error ⟨path, message⟩), { s with meter := s.meter.countOne clock })
  | .ok source =>
    let s := { s with
      asked := s.asked ++ [Checker.checkRequest source file.display plugin (some root)] }
    match compiler.diagnose source file.display plugin (some root) with
    | .error breakdown => (.error breakdown, s)
    | .ok result => (.ok (scanOutcome path result), { s with meter := s.meter.countOne clock })

/-- The results that have events. -/
def resultsOf (outcomes : List ScanOutcome) : List FileResult :=
  outcomes.filterMap fun outcome =>
    match outcome with
    | .ok result => if result.success.isEmpty && result.failed.isEmpty then none else some result
    | .error _ => none

/-- The files without a result. -/
def errorsOf (outcomes : List ScanOutcome) : List ScanError :=
  outcomes.filterMap fun outcome =>
    match outcome with
    | .ok _ => none
    | .error e => some e

/-- The numbers over results. -/
def Totals.ofResults (scanned : Nat) (results : List FileResult) : Totals :=
  { filesScanned := scanned
    filesWithResults := results.length
    compiledFiles := results.countP (!·.success.isEmpty)
    failedFiles := results.countP (!·.failed.isEmpty)
    successCount := (results.map (·.success.length)).sum
    failedCount := (results.map (·.failed.length)).sum }

/-- The report over the outcomes of all files. -/
def Report.ofOutcomes (generatedAt : String) (outcomes : List ScanOutcome) : Report :=
  let results := resultsOf outcomes
  { generatedAt
    totals := .ofResults outcomes.length results
    files := results
    errors := errorsOf outcomes
    tree := .ofFiles results }

/-- A report or why there is none, with what was asked and told meanwhile. -/
structure ReportRun where
  answer : Guarded (Except ReportError Report)
  asked : List CompileRequest := []
  progress : List Progress := []
  checker : Checker

/-- Scans the files of a root with a plugin. -/
def scanAll (tree : FileTree) (compiler : Compiler) (context : ReportContext)
    (options : ReportOptions) (root plugin : FilePath) : Guarded Report × ScanState :=
  let files := tree.sourceFiles root options.filter
  let meter : ProgressMeter := { total := files.length }
  let (outcomes, s) := mapWithWorkers (scanFile tree compiler root plugin context.clock)
    (options.maxConcurrency.getD context.workers) files { meter := meter.start (context.clock 0) }
  (outcomes.map (Report.ofOutcomes context.generatedAt), s)

/-- The root of a report as an absolute path, which must lead to a folder. -/
def ReportOptions.folder (tree : FileTree) (options : ReportOptions) :
    Except ReportError FilePath :=
  match options.root.absolute? tree.cwdPath with
  | none => .error .emptyRoot
  | some root => if tree.isFolder root then .ok root else .error (.notFolder root)

/-- Makes a report. It fails only when there is no folder or no plugin. -/
def generateReport (tree : FileTree) (compiler : Compiler) (checker : Checker)
    (context : ReportContext) (options : ReportOptions) : ReportRun :=
  match options.folder tree with
  | .error e => { answer := .ok (.error e), checker }
  | .ok root =>
    match checker.resolve tree ⟨some root, options.hint⟩ with
    | (.error e, checker) => { answer := .ok (.error (.compiler e)), checker }
    | (.ok plugin, checker) =>
      let (report, s) := scanAll tree compiler context options root plugin
      { answer := report.map .ok, asked := s.asked, progress := s.meter.reports, checker }

end MemoHints
