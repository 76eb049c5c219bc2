import MemoHints.Proofs.Report.CanonicalTree
import MemoHints.Proofs.Report.SourceFiles
import MemoHints.Proofs.Report.Workers
import MemoHints.Report.Basic

/-!
# A report accounts for every file

A file by itself decides what a report says of it: its path and its bytes lead to its `fate`, which
is an error, a result with events, or nothing to show.  A report is these fates side by side.  Every
file has the entries of its fate and no others, whatever the other files are, and the numbers and
the tree count the same events.

## Why entries do not mix

All that a report says of a file it says under its path, so two files under one path would share
their entries.  The paths are joined of names without slashes, and the walk never finds one name
list below another (`Entry.walk_pairwise`), so they are different.

## The order of the files

A report is made over the files in the order of `FileTree.sourceFiles`.  The walk over a stack of
folders can always be brought to its end (`Scan.exists_end`), and finds the files in an order that
depends on the system.  A report over the files in that order accounts for them, and differs in the
order of its entries alone (`report_of_walk`).
-/

namespace MemoHints

/-! ## The files of a scan -/

/-- The bytes of a file. -/
def FileTree.bytes (tree : FileTree) (p : FilePath) : List UInt8 :=
  match tree.entry p with
  | .ok (.file content _) => content
  | _ => []

theorem Apart.of_map {α β : Type} {f : α → β} {a b : List α} (h : Apart (a.map f) (b.map f)) :
    Apart a b :=
  ⟨fun hab => h.1 (hab.map f), fun hba => h.2 (hba.map f)⟩

/-- A plain name that is a text is one part of a path. -/
theorem Name.IsPlain.isPart {text : String} (h : Name.IsPlain (Text.Utf8.encode text)) :
    TreeNode.IsPart text := by
  constructor
  · rintro rfl
    exact h.ne_nil rfl
  · intro hmem
    have hslash : FilePath.slash ∈ String.utf8EncodeChar '/' := by decide
    exact h.slash_not_mem (List.mem_flatMap.mpr ⟨'/', hmem, hslash⟩)

/-- A file of a scan, by the names from the root down to it. -/
structure ScannedAt (tree : FileTree) (root file : FilePath) (names : List String) : Prop where
  ne_nil : names ≠ []
  isPart : ∀ name ∈ names, TreeNode.IsPart name
  below : file = root.below (names.map Text.Utf8.encode)
  path : root.relativeText file = "/".intercalate names
  isFile : ∃ executable, tree.entry file = .ok (.file (tree.bytes file) executable)

theorem ScannedAt.partsOf_path {tree : FileTree} {root file : FilePath} {names : List String}
    (h : ScannedAt tree root file names) : TreeNode.partsOf (root.relativeText file) = names := by
  rw [h.path, TreeNode.partsOf_intercalate h.isPart]

variable {tree : FileTree} {root : FilePath} {filter : ScanFilter}

/-- What the walk finds is scanned at its names, read as texts. -/
theorem scannedAt_of_mem_walk {e : Entry} (htree : tree.root.WellNamed)
    (hroot : tree.entry root = .ok e) {found : List Name × List UInt8}
    (h : found ∈ e.walk filter) :
    found.1 = (found.1.map Text.Utf8.decodeLossy).map Text.Utf8.encode ∧
      ScannedAt tree root (root.below found.1) (found.1.map Text.Utf8.decodeLossy) := by
  obtain ⟨-, hne, hnames⟩ := Entry.at?_of_mem_walk (FileTree.entry_wellNamed htree hroot) h
  obtain ⟨executable, hfile⟩ := FileTree.entry_of_mem_walk htree hroot h
  have htexts : found.1 = (found.1.map Text.Utf8.decodeLossy).map Text.Utf8.encode := by
    rw [List.map_map]
    refine ((List.map_congr_left fun name hname => ?_).trans (List.map_id _)).symm
    obtain ⟨-, text, rfl⟩ := hnames name hname
    rw [Function.comp_apply, Text.Utf8.decodeLossy_encode, id]
  refine ⟨htexts, ?_, ?_, ?_, ?_, executable, ?_⟩
  · simpa using hne
  · intro text htext
    obtain ⟨name, hname, rfl⟩ := List.mem_map.mp htext
    obtain ⟨hplain, text, rfl⟩ := hnames name hname
    rw [Text.Utf8.decodeLossy_encode]
    exact hplain.isPart
  · rw [← htexts]
  · exact FilePath.relativeText_below (FileTree.isEmpty_of_entry hroot)
      fun name hname => (hnames name hname).1
  · rw [FileTree.bytes, hfile]

theorem exists_scannedAt (htree : tree.root.WellNamed) {file : FilePath}
    (h : file ∈ tree.sourceFiles root filter) : ∃ names, ScannedAt tree root file names := by
  unfold FileTree.sourceFiles at h
  cases hroot : tree.entry root with
  | error fault => simp [hroot] at h
  | ok e =>
    simp only [hroot, Entry.sources_eq] at h
    obtain ⟨found, hfound, rfl⟩ := List.mem_map.mp h
    exact ⟨_, (scannedAt_of_mem_walk htree hroot hfound).2⟩

/-- The names down to two files of a scan are apart. -/
theorem sourceFiles_pairwise (htree : tree.root.WellNamed) (root : FilePath) (filter : ScanFilter) :
    (tree.sourceFiles root filter).Pairwise fun a b =>
      Apart (TreeNode.partsOf (root.relativeText a)) (TreeNode.partsOf (root.relativeText b)) := by
  unfold FileTree.sourceFiles
  cases hroot : tree.entry root with
  | error fault => exact .nil
  | ok e =>
    simp only [Entry.sources_eq]
    refine List.pairwise_map.mpr ?_
    refine (Entry.walk_pairwise filter (FileTree.entry_wellNamed htree hroot).proper).imp_of_mem ?_
    intro a b ha hb hab
    obtain ⟨hatexts, ha⟩ := scannedAt_of_mem_walk htree hroot ha
    obtain ⟨hbtexts, hb⟩ := scannedAt_of_mem_walk htree hroot hb
    rw [ha.partsOf_path, hb.partsOf_path]
    rw [hatexts, hbtexts] at hab
    exact hab.of_map

/-- Files of a scan have different paths. -/
theorem sourceFiles_paths_nodup (htree : tree.root.WellNamed) (root : FilePath)
    (filter : ScanFilter) : ((tree.sourceFiles root filter).map root.relativeText).Nodup := by
  refine List.pairwise_map.mpr ((sourceFiles_pairwise htree root filter).imp ?_)
  intro a b hab hsame
  rw [hsame] at hab
  exact hab.1 List.prefix_rfl

/-! ## The fate of a file -/

/-- What becomes of a file. -/
inductive Fate where
  /-- There is no result, for a reason. -/
  | broken (message : String)
  /-- There are events. -/
  | shown (success failed : List DiagnosticEvent)
  /-- There is a result without events. -/
  | silent

namespace Fate

def success : Fate → List DiagnosticEvent
  | .shown success _ => success
  | .broken _ | .silent => []

def failed : Fate → List DiagnosticEvent
  | .shown _ failed => failed
  | .broken _ | .silent => []

def isShown : Fate → Bool
  | .shown .. => true
  | .broken _ | .silent => false

/-- What a report says under a path, among its errors. -/
def errors (path : String) : Fate → List ScanError
  | .broken message => [⟨path, message⟩]
  | .shown .. | .silent => []

/-- What a report says under a path, among its files. -/
def results (path : String) : Fate → List FileResult
  | .shown success failed => [⟨path, success, failed⟩]
  | .broken _ | .silent => []

end Fate

/-- The path and the bytes of a file decide what becomes of it. -/
def fate (compile : CompileRequest → Except CompileError CompileOutput)
    (root plugin file : FilePath) (content : List UInt8) : Fate :=
  match Text.Utf8.decode? content with
  | none => .broken "stream did not contain valid UTF-8"
  | some source =>
    match compile (Checker.checkRequest source file.display plugin (some root)) with
    | .error e => .broken e.message
    | .ok ⟨none, _⟩ => .broken "Compilation produced no output"
    | .ok ⟨some _, events⟩ =>
      match events.filter (·.outcome? == some .success),
          events.filter (·.outcome? == some .failure) with
      | [], [] => .silent
      | success, failed => .shown success failed

/-- The numbers that count fates. -/
def Totals.ofFates (fates : List Fate) : Totals :=
  { filesScanned := fates.length
    filesWithResults := fates.countP (·.isShown)
    compiledFiles := fates.countP (!·.success.isEmpty)
    failedFiles := fates.countP (!·.failed.isEmpty)
    successCount := (fates.map (·.success.length)).sum
    failedCount := (fates.map (·.failed.length)).sum }

/-- What the scan of one file comes to. -/
def fileOutcome (tree : FileTree) (compile : CompileRequest → Except CompileError CompileOutput)
    (root plugin file : FilePath) : ScanOutcome :=
  match tree.readText file with
  | .error message => .error ⟨root.relativeText file, message⟩
  | .ok source =>
    scanOutcome (root.relativeText file)
      ((compile (Checker.checkRequest source file.display plugin (some root))).bind (·.result))

theorem scanFile_answer (tree : FileTree)
    (compile : CompileRequest → Except CompileError CompileOutput) (root plugin : FilePath)
    (clock : Nat → Nat) (file : FilePath) (s : ScanState) :
    (scanFile tree (fun request => .ok (compile request)) root plugin clock file s).1 =
      .ok (fileOutcome tree compile root plugin file) := by
  unfold scanFile fileOutcome
  cases tree.readText file with
  | error message => rfl
  | ok source => rfl

theorem errorsOf_cons (outcome : ScanOutcome) (outcomes : List ScanOutcome) :
    errorsOf (outcome :: outcomes) = errorsOf [outcome] ++ errorsOf outcomes :=
  List.filterMap_append (l := [outcome])

theorem resultsOf_cons (outcome : ScanOutcome) (outcomes : List ScanOutcome) :
    resultsOf (outcome :: outcomes) = resultsOf [outcome] ++ resultsOf outcomes :=
  List.filterMap_append (l := [outcome])

/-- A file that is read has the entries of its fate. -/
theorem entries_fileOutcome (compile : CompileRequest → Except CompileError CompileOutput)
    (root plugin : FilePath) {file : FilePath} {content : List UInt8} {executable : Bool}
    (h : tree.entry file = .ok (.file content executable)) :
    errorsOf [fileOutcome tree compile root plugin file] =
        (fate compile root plugin file content).errors (root.relativeText file) ∧
      resultsOf [fileOutcome tree compile root plugin file] =
        (fate compile root plugin file content).results (root.relativeText file) := by
  unfold fileOutcome fate FileTree.readText
  rw [h]
  dsimp only
  cases Text.Utf8.decode? content with
  | none => exact ⟨rfl, rfl⟩
  | some source =>
    dsimp only
    cases compile (Checker.checkRequest source file.display plugin (some root)) with
    | error e => exact ⟨rfl, rfl⟩
    | ok output =>
      obtain ⟨_ | code, events⟩ := output
      · exact ⟨rfl, rfl⟩
      · simp only [Except.bind, CompileOutput.result, CompileResult.ofEvents, scanOutcome]
        cases events.filter (·.outcome? == some .success) <;>
          cases events.filter (·.outcome? == some .failure) <;> exact ⟨rfl, rfl⟩

/-- A report of a scan is made of the entries of the fates, file by file. -/
theorem entries_fileOutcomes (compile : CompileRequest → Except CompileError CompileOutput)
    (root plugin : FilePath) {files : List FilePath}
    (h : ∀ file ∈ files, ∃ executable,
      tree.entry file = .ok (.file (tree.bytes file) executable)) :
    errorsOf (files.map (fileOutcome tree compile root plugin)) =
        files.flatMap (fun file =>
          (fate compile root plugin file (tree.bytes file)).errors (root.relativeText file)) ∧
      resultsOf (files.map (fileOutcome tree compile root plugin)) =
        files.flatMap (fun file =>
          (fate compile root plugin file (tree.bytes file)).results (root.relativeText file)) := by
  induction files with
  | nil => exact ⟨rfl, rfl⟩
  | cons file files ih =>
    obtain ⟨executable, hfile⟩ := h file List.mem_cons_self
    obtain ⟨herrors, hresults⟩ :=
      entries_fileOutcome compile root plugin hfile
    obtain ⟨herrors', hresults'⟩ := ih fun next hnext => h next (List.mem_cons_of_mem _ hnext)
    rw [List.map_cons, errorsOf_cons, resultsOf_cons, herrors, hresults, herrors', hresults']
    exact ⟨rfl, rfl⟩

namespace Fate

theorem path_of_mem_errors {path : String} {fate : Fate} {e : ScanError}
    (h : e ∈ fate.errors path) : e.path = path := by
  cases fate with
  | broken message => rw [List.mem_singleton.mp h]
  | shown success failed => cases h
  | silent => cases h

theorem path_of_mem_results {path : String} {fate : Fate} {result : FileResult}
    (h : result ∈ fate.results path) : result.path = path := by
  cases fate with
  | broken message => cases h
  | shown success failed => rw [List.mem_singleton.mp h]
  | silent => cases h

/-- There is at most one entry. -/
theorem results_pairwise (path : String) (fate : Fate) (r : FileResult → FileResult → Prop) :
    (fate.results path).Pairwise r := by
  cases fate with
  | broken message => exact .nil
  | shown success failed => exact List.pairwise_singleton _ _
  | silent => exact .nil

end Fate

/-- The numbers over results are those over fates. -/
theorem Totals.ofResults_eq_ofFates {α : Type} (path : α → String) (fateOf : α → Fate)
    (files : List α) :
    Totals.ofResults files.length (files.flatMap fun file => (fateOf file).results (path file)) =
      Totals.ofFates (files.map fateOf) := by
  induction files with
  | nil => rfl
  | cons file files ih =>
    simp only [Totals.ofResults, Totals.ofFates, Totals.mk.injEq, List.length_map] at ih
    obtain ⟨-, hshown, hcompiled, hfailing, hsuccess, hfailed⟩ := ih
    simp only [Totals.ofResults, Totals.ofFates, List.map_cons, List.flatMap_cons,
      List.length_cons, List.length_append, List.countP_append, List.map_append, List.sum_append,
      List.countP_cons, List.sum_cons, List.length_map, hshown, hcompiled, hfailing, hsuccess,
      hfailed]
    cases fateOf file with
    | broken message => simp [Fate.results, Fate.isShown, Fate.success, Fate.failed]
    | shown success failed =>
      simp [Fate.results, Fate.isShown, Fate.success, Fate.failed, List.countP_cons, Nat.add_comm]
    | silent => simp [Fate.results, Fate.isShown, Fate.success, Fate.failed]

/-- Of the entries of all, those under the key of one are its own. -/
theorem filter_flatMap_of_nodup {α β κ : Type} [DecidableEq κ] {key : α → κ} {keyOf : β → κ}
    {entries : α → List β} (hkey : ∀ a, ∀ b ∈ entries a, keyOf b = key a) {l : List α}
    (hnodup : (l.map key).Nodup) {a : α} (ha : a ∈ l) :
    (l.flatMap entries).filter (keyOf · = key a) = entries a := by
  have hown : ∀ a, (entries a).filter (keyOf · = key a) = entries a := fun a =>
    List.filter_eq_self.mpr fun b hb => decide_eq_true (hkey a b hb)
  have hother : ∀ a a', key a ≠ key a' → (entries a').filter (keyOf · = key a) = [] := by
    intro a a' hne
    refine List.filter_eq_nil_iff.mpr fun b hb hsame => hne ?_
    rw [← of_decide_eq_true hsame, hkey a' b hb]
  induction l with
  | nil => cases ha
  | cons first l ih =>
    obtain ⟨hfirst, hrest⟩ := List.nodup_cons.mp hnodup
    rw [List.flatMap_cons, List.filter_append]
    rcases List.mem_cons.mp ha with rfl | ha
    · have hnone : (l.flatMap entries).filter (keyOf · = key a) = [] := by
        refine List.filter_eq_nil_iff.mpr fun b hb hsame => hfirst ?_
        obtain ⟨a', ha', hb⟩ := List.mem_flatMap.mp hb
        rw [← of_decide_eq_true hsame, hkey a' b hb]
        exact List.mem_map_of_mem ha'
      rw [hown, hnone, List.append_nil]
    · have hne : key a ≠ key first := fun hsame => hfirst (hsame ▸ List.mem_map_of_mem ha)
      rw [hother a first hne, ih hrest ha, List.nil_append]

section Results

variable {files : List FilePath} {fateOf : FilePath → Fate} {results : List FileResult}

/-- A result is at the names down to its file. -/
theorem exists_names_of_mem_results
    (hscanned : ∀ file ∈ files, ∃ names, ScannedAt tree root file names)
    (hresults : results = files.flatMap fun file =>
      (fateOf file).results (root.relativeText file)) {result : FileResult}
    (hresult : result ∈ results) : ∃ names, TreeNode.partsOf result.path = names ∧
      result.path = "/".intercalate names ∧ names ≠ [] ∧ ∀ name ∈ names, TreeNode.IsPart name := by
  rw [hresults] at hresult
  obtain ⟨file, hfile, hmem⟩ := List.mem_flatMap.mp hresult
  obtain ⟨names, hnames⟩ := hscanned file hfile
  rw [Fate.path_of_mem_results hmem]
  exact ⟨names, hnames.partsOf_path, hnames.path, hnames.ne_nil, hnames.isPart⟩

/-- Results are apart as their files are. -/
theorem results_pairwise
    (hapart : files.Pairwise fun a b =>
      Apart (TreeNode.partsOf (root.relativeText a)) (TreeNode.partsOf (root.relativeText b)))
    (hresults : results = files.flatMap fun file =>
      (fateOf file).results (root.relativeText file)) :
    results.Pairwise fun a b => Apart (TreeNode.partsOf a.path) (TreeNode.partsOf b.path) := by
  rw [hresults]
  refine List.pairwise_flatMap.mpr ⟨fun file _ => Fate.results_pairwise _ _ _, ?_⟩
  refine hapart.imp fun hab result hresult result' hresult' => ?_
  rw [Fate.path_of_mem_results hresult, Fate.path_of_mem_results hresult']
  exact hab

/-- The tree over the results of scanned files. -/
theorem ofFiles_ways_of_scannedAt
    (hscanned : ∀ file ∈ files, ∃ names, ScannedAt tree root file names)
    (hapart : files.Pairwise fun a b =>
      Apart (TreeNode.partsOf (root.relativeText a)) (TreeNode.partsOf (root.relativeText b)))
    (hresults : results = files.flatMap fun file =>
      (fateOf file).results (root.relativeText file)) :
    (TreeNode.ways.ofAll (TreeNode.ofFiles results).children).Perm
      (results.map fun result => (TreeNode.partsOf result.path, result)) := by
  refine TreeNode.ofFiles_ways ?_ ?_ (results_pairwise hapart hresults)
  · intro result hresult
    obtain ⟨names, hparts, hjoin, -⟩ := exists_names_of_mem_results hscanned hresults hresult
    rw [hparts, hjoin]
  · intro result hresult
    obtain ⟨names, hparts, -, hnames⟩ := exists_names_of_mem_results hscanned hresults hresult
    rw [hparts]
    exact hnames

end Results

/-! ## The whole report -/

/-- A report that accounts for files, by the fate that each has. -/
structure Report.Accounts (report : Report) (tree : FileTree) (root : FilePath)
    (files : List FilePath) (fate : FilePath → List UInt8 → Fate) : Prop where
  /-- Every file lies below the root at names, which its path joins. -/
  scannedAt : ∀ file ∈ files, ∃ names, ScannedAt tree root file names
  distinct : (files.map root.relativeText).Nodup
  /-- What is said under the path of a file is what its fate says. -/
  errors : ∀ file ∈ files, report.errors.filter (·.path = root.relativeText file) =
    (fate file (tree.bytes file)).errors (root.relativeText file)
  results : ∀ file ∈ files, report.files.filter (·.path = root.relativeText file) =
    (fate file (tree.bytes file)).results (root.relativeText file)
  /-- Nothing is said under other paths. -/
  onlyErrors : ∀ e ∈ report.errors, e.path ∈ files.map root.relativeText
  onlyResults : ∀ result ∈ report.files, result.path ∈ files.map root.relativeText
  totals : report.totals = .ofFates (files.map fun file => fate file (tree.bytes file))
  /-- The tree holds the files with events, and every folder the sums over those below it. -/
  ways : (TreeNode.ways.ofAll report.tree.children).Perm
    (report.files.map fun result => (TreeNode.partsOf result.path, result))
  counted : report.tree.Counted
  successCount : report.tree.successCount = report.totals.successCount
  failedCount : report.tree.failedCount = report.totals.failedCount

/-- The outcomes of the files of a scan, in any order, make a report that accounts for them. -/
theorem Report.ofOutcomes_accounts (htree : tree.root.WellNamed) (root plugin : FilePath)
    (filter : ScanFilter) (compile : CompileRequest → Except CompileError CompileOutput)
    (generatedAt : String) {files : List FilePath}
    (hfiles : files.Perm (tree.sourceFiles root filter)) :
    (Report.ofOutcomes generatedAt (files.map (fileOutcome tree compile root plugin))).Accounts
      tree root files (fate compile root plugin) := by
  have hscanned : ∀ file ∈ files, ∃ names, ScannedAt tree root file names := fun _ hfile =>
    exists_scannedAt htree (hfiles.mem_iff.mp hfile)
  have hdistinct := (hfiles.map root.relativeText).nodup_iff.mpr
    (sourceFiles_paths_nodup htree root filter)
  have hapart := (hfiles.pairwise_iff fun hab => hab.symm).mpr
    (sourceFiles_pairwise htree root filter)
  obtain ⟨herrors, hresults⟩ := entries_fileOutcomes compile root plugin
    fun file hfile => (hscanned file hfile).elim fun _ h => h.isFile
  have hways := ofFiles_ways_of_scannedAt hscanned hapart hresults
  obtain ⟨hsuccess, hfailed⟩ := TreeNode.ofFiles_counts hways
  refine ⟨hscanned, hdistinct, ?_, ?_, ?_, ?_, ?_, hways, TreeNode.settle_counted _, hsuccess,
    hfailed⟩
  · intro file hfile
    simp only [Report.ofOutcomes, herrors]
    exact filter_flatMap_of_nodup (fun _ _ he => Fate.path_of_mem_errors he) hdistinct hfile
  · intro file hfile
    simp only [Report.ofOutcomes, hresults]
    exact filter_flatMap_of_nodup (fun _ _ he => Fate.path_of_mem_results he) hdistinct hfile
  · simp only [Report.ofOutcomes, herrors]
    intro e he
    obtain ⟨file, hfile, hmem⟩ := List.mem_flatMap.mp he
    exact List.mem_map.mpr ⟨file, hfile, (Fate.path_of_mem_errors hmem).symm⟩
  · simp only [Report.ofOutcomes, hresults]
    intro result hresult
    obtain ⟨file, hfile, hmem⟩ := List.mem_flatMap.mp hresult
    exact List.mem_map.mpr ⟨file, hfile, (Fate.path_of_mem_results hmem).symm⟩
  · simp only [Report.ofOutcomes, hresults, List.length_map]
    exact Totals.ofResults_eq_ofFates _ _ _

/-- With a folder and a plugin there is a report, over the outcomes of the files that are found. -/
theorem generateReport_answer (compile : CompileRequest → Except CompileError CompileOutput)
    (context : ReportContext) (checker : Checker) {options : ReportOptions} {found : FoundPlugin}
    (habsolute : options.root.absolute? tree.cwdPath = some root)
    (hfolder : tree.isFolder root = true)
    (hplugin : resolvePlugin tree ⟨some root, options.hint⟩ checker.bundled = .ok found) :
    (generateReport tree (fun request => .ok (compile request)) checker context options).answer =
      .ok (.ok (.ofOutcomes context.generatedAt ((tree.sourceFiles root options.filter).map
        (fileOutcome tree compile root found.path)))) := by
  have hscan := mapWithWorkers_eq_map
    (scanFile_answer tree compile root found.path context.clock)
    (options.maxConcurrency.getD context.workers) (tree.sourceFiles root options.filter)
    { meter := ProgressMeter.start { total := (tree.sourceFiles root options.filter).length }
        (context.clock 0) }
  have hoptions : options.folder tree = .ok root := by
    simp only [ReportOptions.folder, habsolute, hfolder, if_true]
  simp only [generateReport, hoptions, Checker.resolve, hplugin, scanAll, hscan]
  rfl

/-- **A report accounts for every file exactly once.**  The compiler is any that answers, and may
refuse; the checker may keep any results. -/
theorem generateReport_accounts (compile : CompileRequest → Except CompileError CompileOutput)
    (context : ReportContext) (checker : Checker) {options : ReportOptions} {found : FoundPlugin}
    (htree : tree.root.WellNamed) (habsolute : options.root.absolute? tree.cwdPath = some root)
    (hfolder : tree.isFolder root = true)
    (hplugin : resolvePlugin tree ⟨some root, options.hint⟩ checker.bundled = .ok found) :
    ∃ report, (generateReport tree (fun request => .ok (compile request)) checker context
        options).answer = .ok (.ok report) ∧
      report.Accounts tree root (tree.sourceFiles root options.filter)
        (fate compile root found.path) :=
  ⟨_, generateReport_answer compile context checker habsolute hfolder hplugin,
    Report.ofOutcomes_accounts htree root found.path options.filter compile context.generatedAt
      (.refl _)⟩

/-- A file `a.ts`, and in a folder `d` a file `b.ts` that is no text, beside a plugin `p`. -/
def mixedFiles : FileTree :=
  { root := .folder [([0x64], .folder [([0x62, 0x2e, 0x74, 0x73], .file [0xff] false)]),
      ([0x61, 0x2e, 0x74, 0x73], .file [0x61] false), ([0x70], .file [] false)]
    cwd := [] }

/-- A report on these files. -/
def mixedOptions : ReportOptions := { root := ⟨[FilePath.slash]⟩, hint := ⟨[0x70]⟩ }

theorem mixedFiles_entry : mixedFiles.entry ⟨[FilePath.slash]⟩ = .ok mixedFiles.root :=
  FileTree.entry_slash rfl

/-- The names in `mixedFiles`. -/
theorem mixedFiles_isPlain : Name.IsPlain [0x64] ∧ Name.IsPlain [0x62, 0x2e, 0x74, 0x73] ∧
    Name.IsPlain [0x61, 0x2e, 0x74, 0x73] ∧ Name.IsPlain [0x70] := by
  refine ⟨?_, ?_, ?_, ?_⟩ <;> constructor <;> decide

theorem mixedFiles_wellNamed : mixedFiles.root.WellNamed := by
  obtain ⟨hd, hb, ha, hp⟩ := mixedFiles_isPlain
  simp only [mixedFiles, Entry.WellNamed, Entry.WellNamed.ofMembers]
  refine ⟨hd, ⟨"d", by decide⟩, by decide, ⟨hb, ⟨"b.ts", by decide⟩, by decide, trivial, trivial⟩,
    ha, ⟨"a.ts", by decide⟩, by decide, trivial, hp, ⟨"p", by decide⟩, by decide, trivial, trivial⟩

theorem mixedFiles_resolvePlugin :
    resolvePlugin mixedFiles ⟨some ⟨[FilePath.slash]⟩, mixedOptions.hint⟩ none =
      .ok ⟨⟨[FilePath.slash, 0x70]⟩, .workspace⟩ := by
  have hjoin : FilePath.join ⟨[FilePath.slash]⟩ ⟨[0x70]⟩ = ⟨[FilePath.slash, 0x70]⟩ := rfl
  have hplugin : mixedFiles.entry (FilePath.join ⟨[FilePath.slash]⟩ ⟨[0x70]⟩) =
      .ok (.file [] false) :=
    FileTree.entry_join_name mixedFiles_entry mixedFiles_isPlain.2.2.2 rfl (fun _ => nofun)
  rw [hjoin] at hplugin
  simp [resolvePlugin, tryPlugin, PluginLocation.candidate, mixedOptions, hjoin, FileTree.contains,
    hplugin, Except.isOk, Except.toBool]

theorem mixedFiles_sourceFiles :
    mixedFiles.sourceFiles ⟨[FilePath.slash]⟩ mixedOptions.filter =
      [FilePath.below ⟨[FilePath.slash]⟩ [[0x64], [0x62, 0x2e, 0x74, 0x73]],
        FilePath.below ⟨[FilePath.slash]⟩ [[0x61, 0x2e, 0x74, 0x73]]] := by
  have hwants : mixedOptions.filter.wants [0x62, 0x2e, 0x74, 0x73] = true ∧
      mixedOptions.filter.wants [0x61, 0x2e, 0x74, 0x73] = true ∧
      mixedOptions.filter.wants [0x70] = false ∧ mixedOptions.filter.skips [0x64] = false := by
    decide +kernel
  obtain ⟨hb, ha, hp, hd⟩ := hwants
  rw [FileTree.sourceFiles, mixedFiles_entry]
  simp [mixedFiles, Entry.sources, Entry.sources.ofMembers, ha, hb, hp, hd, FilePath.below]

theorem broken_file_spoils_nothing :
    let compiled : DiagnosticEvent := { kind := some .compileSuccess }
    let compile : CompileRequest → Except CompileError CompileOutput := fun _ =>
      .ok { code := some "", events := [compiled] }
    ∃ report, (generateReport mixedFiles (fun request => .ok (compile request)) {}
        { generatedAt := "" } mixedOptions).answer = .ok (.ok report) ∧
      report.errors.filter (·.path = "d/b.ts") =
        [⟨"d/b.ts", "stream did not contain valid UTF-8"⟩] ∧
      report.files.filter (·.path = "a.ts") = [⟨"a.ts", [compiled], []⟩] ∧
      report.totals = ⟨2, 1, 1, 0, 1, 0⟩ := by
  intro compiled compile
  have hfolder : mixedFiles.isFolder ⟨[FilePath.slash]⟩ = true := by
    rw [FileTree.isFolder, mixedFiles_entry]
    rfl
  obtain ⟨report, hreport, haccounts⟩ := generateReport_accounts compile { generatedAt := "" } {}
    mixedFiles_wellNamed rfl hfolder mixedFiles_resolvePlugin
  rw [mixedFiles_sourceFiles] at haccounts
  obtain ⟨hd, hb, ha, -⟩ := mixedFiles_isPlain
  -- the files lie where the walk has found them
  have hbroken : mixedFiles.entry (FilePath.below ⟨[FilePath.slash]⟩
      [[0x64], [0x62, 0x2e, 0x74, 0x73]]) = .ok (.file [0xff] false) :=
    FileTree.entry_below mixedFiles_entry (by simp [hd, hb]) rfl (fun _ => nofun)
  have hgood : mixedFiles.entry (FilePath.below ⟨[FilePath.slash]⟩ [[0x61, 0x2e, 0x74, 0x73]]) =
      .ok (.file [0x61] false) :=
    FileTree.entry_below mixedFiles_entry (by simp [ha]) rfl (fun _ => nofun)
  have herrors := haccounts.errors _ List.mem_cons_self
  have hresults := haccounts.results _ (List.mem_cons_of_mem _ List.mem_cons_self)
  have htotals := haccounts.totals
  simp only [List.map_cons, List.map_nil, FileTree.bytes, hbroken, hgood]
    at herrors hresults htotals
  exact ⟨report, hreport, herrors, hresults, htotals⟩

/-! ## The order of the files -/

/-- Reports that differ in the order of their entries alone. -/
structure Report.SameButOrder (report report' : Report) : Prop where
  generatedAt : report.generatedAt = report'.generatedAt
  totals : report.totals = report'.totals
  files : report.files.Perm report'.files
  errors : report.errors.Perm report'.errors
  tree : report.tree = report'.tree

theorem Totals.ofResults_perm {results results' : List FileResult} (h : results.Perm results')
    (scanned : Nat) : Totals.ofResults scanned results = Totals.ofResults scanned results' := by
  simp only [Totals.ofResults, h.length_eq, h.countP_eq, (h.map _).sum_nat]

/-- Files of a scan that come in another order make the same report but for the order. -/
theorem Report.ofOutcomes_sameButOrder (htree : tree.root.WellNamed) (root plugin : FilePath)
    (filter : ScanFilter) (compile : CompileRequest → Except CompileError CompileOutput)
    (generatedAt : String) {files : List FilePath}
    (hfiles : files.Perm (tree.sourceFiles root filter)) :
    (Report.ofOutcomes generatedAt
      (files.map (fileOutcome tree compile root plugin))).SameButOrder
      (.ofOutcomes generatedAt
        ((tree.sourceFiles root filter).map (fileOutcome tree compile root plugin))) := by
  have houtcomes := hfiles.map (fileOutcome tree compile root plugin)
  have hentries : (resultsOf (files.map (fileOutcome tree compile root plugin))).Perm
      (resultsOf ((tree.sourceFiles root filter).map (fileOutcome tree compile root plugin))) :=
    houtcomes.filterMap _
  have hscanned : ∀ file ∈ tree.sourceFiles root filter, ∃ names, ScannedAt tree root file names :=
    fun _ hfile => exists_scannedAt htree hfile
  obtain ⟨-, hresults⟩ := entries_fileOutcomes compile root plugin
    fun file hfile => (hscanned file hfile).elim fun _ h => h.isFile
  have hparts : ∀ result ∈ resultsOf ((tree.sourceFiles root filter).map
      (fileOutcome tree compile root plugin)), TreeNode.partsOf result.path ≠ [] := by
    intro result hresult
    obtain ⟨names, hparts, -, hne, -⟩ := exists_names_of_mem_results hscanned hresults hresult
    rwa [hparts]
  have hapart := results_pairwise (sourceFiles_pairwise htree root filter) hresults
  refine ⟨rfl, ?_, hentries, houtcomes.filterMap _, TreeNode.ofFiles_perm hparts hapart hentries⟩
  simp only [Report.ofOutcomes, houtcomes.length_eq]
  exact Totals.ofResults_perm hentries _

/-- **The order in which the walk finds the files decides the order of the entries and nothing
else.**  In whatever order the system lists the folders, the report over the files that the walk
ends with accounts for them, and it is the one that `generateReport` makes but for that order. -/
theorem report_of_walk (compile : CompileRequest → Except CompileError CompileOutput)
    (context : ReportContext) (checker : Checker) {options : ReportOptions} {found : FoundPlugin}
    (htree : tree.root.WellNamed) (habsolute : options.root.absolute? tree.cwdPath = some root)
    (hfolder : tree.isFolder root = true)
    (hplugin : resolvePlugin tree ⟨some root, options.hint⟩ checker.bundled = .ok found)
    {final : Scan}
    (hwalk : Relation.ReflTransGen (Scan.Step tree options.filter) (.start root) final)
    (hend : final.stack = []) (limit : Nat) (s : ScanState) :
    ∃ report report' : Report,
      (mapWithWorkers (scanFile tree (fun request => .ok (compile request)) root found.path
        context.clock) limit final.files s).1.map (Report.ofOutcomes context.generatedAt) =
          .ok report ∧
      report.Accounts tree root final.files (fate compile root found.path) ∧
      (generateReport tree (fun request => .ok (compile request)) checker context
        options).answer = .ok (.ok report') ∧
      report.SameButOrder report' := by
  have hfiles := Scan.files_perm_of_reaches htree.proper hwalk hend
  refine ⟨_, _, ?_,
    Report.ofOutcomes_accounts htree root found.path options.filter compile context.generatedAt
      hfiles,
    generateReport_answer compile context checker habsolute hfolder hplugin,
    Report.ofOutcomes_sameButOrder htree root found.path options.filter compile
      context.generatedAt hfiles⟩
  rw [mapWithWorkers_eq_map (scanFile_answer tree compile root found.path context.clock)]
  rfl

end MemoHints
