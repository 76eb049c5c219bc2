import MemoHints.Proofs.Report.Account
import MemoHints.Proofs.Report.Progress
import MemoHints.Server.Command

/-!
# The progress that an editor is told

A command for a report tells the editor what the meter of its scan reports, if the editor gave the
report an id.  A scan that comes to its end has counted every file once, so what is told is what the
meter reports when it counts to the number of files, at the times that the clock shows
(`progress_paced`).  A command that is refused tells nothing.
-/

namespace MemoHints

/-- A file that is read or compiled, with or without a result, is counted. -/
theorem scanFile_meter {tree : FileTree} {compiler : Compiler} {root plugin : FilePath}
    {clock : Nat → Nat} {file : FilePath} {s s' : ScanState} {outcome : ScanOutcome}
    (h : scanFile tree compiler root plugin clock file s = (.ok outcome, s')) :
    s'.meter = s.meter.countOne clock := by
  unfold scanFile at h
  dsimp only at h
  split at h
  · cases h
    rfl
  · split at h
    · cases h
    · cases h
      rfl

/-- A scan that comes to its end has counted all files. -/
theorem scanAll_meter {tree : FileTree} {compiler : Compiler} {context : ReportContext}
    {options : ReportOptions} {root plugin : FilePath} {report : Report} {s : ScanState}
    (h : scanAll tree compiler context options root plugin = (.ok report, s)) :
    s.meter = .counting report.totals.filesScanned progressInterval context.clock
      report.totals.filesScanned := by
  unfold scanAll at h
  dsimp only at h
  generalize tree.sourceFiles root options.filter = files at h
  cases hmap : mapWithWorkers (scanFile tree compiler root plugin context.clock)
      (options.maxConcurrency.getD context.workers) files
      { meter := ProgressMeter.start { total := files.length } (context.clock 0) } with
  | mk outcomes state =>
    rw [hmap] at h
    cases outcomes with
    | error breakdown => cases h
    | ok outcomes =>
      cases h
      let counted (done : Nat) (s : ScanState) : Prop :=
        s.meter = .counting files.length progressInterval context.clock done
      have hfile : ∀ file done s outcome s', counted done s →
          scanFile tree compiler root plugin context.clock file s = (.ok outcome, s') →
          counted (done + 1) s' := by
        intro file done s outcome s' hs hscan
        show s'.meter = _
        rw [scanFile_meter hscan, hs, ProgressMeter.counting]
      have hstart : counted 0
          { meter := ProgressMeter.start { total := files.length } (context.clock 0) } := rfl
      obtain ⟨hlength, hmeter⟩ := mapWithWorkers_completed hfile hstart hmap
      have hscanned : (Report.ofOutcomes context.generatedAt outcomes).totals.filesScanned =
          files.length := hlength
      rw [hscanned]
      exact hmeter

/-- A report is refused, or it is that of a scan. -/
theorem generateReport_cases (tree : FileTree) (compiler : Compiler) (checker : Checker)
    (context : ReportContext) (options : ReportOptions) :
    let run := generateReport tree compiler checker context options
    (∃ e, run.answer = .ok (.error e) ∧ run.progress = []) ∨
      ∃ root plugin report s, scanAll tree compiler context options root plugin = (report, s) ∧
        run.answer = report.map .ok ∧ run.progress = s.meter.reports := by
  intro run
  unfold run generateReport
  cases options.folder tree with
  | error e => exact .inl ⟨e, rfl, rfl⟩
  | ok root =>
    dsimp only
    split
    next e _ _ => exact .inl ⟨.compiler e, rfl, rfl⟩
    next plugin _ _ => exact .inr ⟨root, plugin, _, _, rfl, rfl, rfl⟩

namespace Server

variable (around : Surroundings) (server : Server) (arguments : List Json)

/-- All that can become of the command. -/
theorem report_cases :
    let step := server.report around arguments
    (∃ e, step.answer = .error e ∧ (∀ task breakdown, e ≠ .reportBroke task breakdown) ∧
      step.progress = []) ∨
    ∃ request root, ReportRequest.ofArguments arguments = .ok request ∧
      let run := generateReport around.tree around.compiler server.checker around.reports
        (request.options root server.settings)
      step.progress = request.told run.progress ∧
        ((∃ report, run.answer = .ok (.ok report) ∧
            step.answer = .ok [("report", report.toJson)]) ∨
          (∃ e, run.answer = .ok (.error e) ∧ step.answer = .error (.report e)) ∨
          ∃ breakdown, run.answer = .error breakdown ∧
            step.answer = .error (.reportBroke around.task breakdown)) := by
  intro step
  unfold step report
  cases hrequest : ReportRequest.ofArguments arguments with
  | error e => exact .inl ⟨.badOptions e, rfl, by rintro _ _ ⟨⟩, rfl⟩
  | ok request =>
    dsimp only
    cases request.root.or server.session.root with
    | none => exact .inl ⟨.noFolder, rfl, by rintro _ _ ⟨⟩, rfl⟩
    | some root =>
      refine .inr ⟨request, root, rfl, ?_⟩
      dsimp only
      cases hrun : (generateReport around.tree around.compiler server.checker around.reports
          (request.options root server.settings)).answer with
      | error breakdown => exact ⟨rfl, .inr (.inr ⟨breakdown, rfl, rfl⟩)⟩
      | ok answer =>
        cases answer with
        | error e => exact ⟨rfl, .inr (.inl ⟨e, rfl, rfl⟩)⟩
        | ok report => exact ⟨rfl, .inl ⟨report, rfl, rfl⟩⟩

/-- A command that is refused tells nothing. -/
theorem report_progress_of_refused {e : CommandError}
    (h : (server.report around arguments).answer = .error e)
    (hrefused : ∀ task breakdown, e ≠ .reportBroke task breakdown) :
    (server.report around arguments).progress = [] := by
  rcases server.report_cases around arguments with
    ⟨-, -, -, hnone⟩ | ⟨request, root, -, htold, hcases⟩
  · exact hnone
  · rcases hcases with ⟨report, -, hanswer⟩ | ⟨e', hrun, -⟩ | ⟨breakdown, -, hanswer⟩
    · rw [hanswer] at h
      cases h
    · rcases generateReport_cases around.tree around.compiler server.checker around.reports
        (request.options root server.settings) with ⟨_, -, hnone⟩ | ⟨_, _, outcome, _, -, hmap, -⟩
      · rw [htold, hnone, ReportRequest.told]
        split <;> rfl
      · rw [hrun] at hmap
        cases outcome <;> cases hmap
    · rw [hanswer] at h
      cases h
      exact absurd rfl (hrefused _ _)

/-- A report without an id tells nothing. -/
theorem report_progress_of_no_id {request : ReportRequest}
    (hrequest : ReportRequest.ofArguments arguments = .ok request)
    (hid : request.reportId = none) : (server.report around arguments).progress = [] := by
  rcases server.report_cases around arguments with
    ⟨-, -, -, hnone⟩ | ⟨request', root, hsame, htold, -⟩
  · exact hnone
  · obtain rfl := Except.ok.inj (hrequest.symm.trans hsame)
    rw [htold, ReportRequest.told, hid]

/-- A report with an id tells what its meter reports. -/
theorem report_progress_of_completed {request : ReportRequest} {id : Json}
    {members : List (String × Json)}
    (hrequest : ReportRequest.ofArguments arguments = .ok request)
    (hid : request.reportId = some id)
    (h : (server.report around arguments).answer = .ok members) :
    ∃ report : Report, members = [("report", report.toJson)] ∧
      (server.report around arguments).progress =
        (ProgressMeter.counting report.totals.filesScanned progressInterval around.reports.clock
          report.totals.filesScanned).reports.map (⟨id, ·⟩) := by
  rcases server.report_cases around arguments with
    ⟨e, hanswer, -⟩ | ⟨request', root, hsame, htold, hcases⟩
  · rw [hanswer] at h
    cases h
  · obtain rfl := Except.ok.inj (hrequest.symm.trans hsame)
    rcases hcases with ⟨report, hrun, hanswer⟩ | ⟨e, -, hanswer⟩ | ⟨breakdown, -, hanswer⟩
    · rw [hanswer] at h
      cases h
      refine ⟨report, rfl, ?_⟩
      rcases generateReport_cases around.tree around.compiler server.checker around.reports
        (request.options root server.settings) with
        ⟨e, hrefused, -⟩ | ⟨_, _, outcome, s, hscan, hmap, hreports⟩
      · rw [hrun] at hrefused
        cases hrefused
      · rw [hrun] at hmap
        cases outcome with
        | error breakdown => cases hmap
        | ok scanned =>
          cases hmap
          rw [htold, ReportRequest.told, hid, hreports, scanAll_meter hscan]
    · rw [hanswer] at h
      cases h
    · rw [hanswer] at h
      cases h

end Server

/-- **Progress is paced and complete.**  A meter that counts to `done` of a total paces its reports,
and reports the last file once.  Workers that share it count no file twice and in the end every
file, in whatever order they come, and they can always come to their end; the meter is the one that
counts as many files, one after the other.  A report with an id tells the editor what that meter
reports for the number of files, from the start to the last file; one without an id and one that is
refused tell nothing. -/
theorem progress_paced {clock : Nat → Nat} (hclock : Monotone clock) :
    (∀ total interval : Nat, ∀ done ≤ total,
      let reports := (ProgressMeter.counting total interval clock done).reports
      PacedReports total interval clock done reports ∧
        (done = total → reports.count ⟨total, total⟩ = 1)) ∧
    (∀ (α β : Type) (items : List α) (value : α → β) (limit interval : Nat)
      (steps : List CountingStep),
      let s := CountingPool.takeAll items value clock
        (.start limit interval clock items.length) steps
      s.meter = .counting items.length interval clock s.counted.length ∧
        s.counted.Nodup ∧ s.counted.length ≤ items.length ∧
        (s.working.AllStopped → s.counted.length = items.length) ∧
        ∃ more, (s.takeAll items value clock more).working.AllStopped) ∧
    ∀ (around : Surroundings) (server : Server) (arguments : List Json),
      around.reports.clock = clock →
      let step := server.execute around .generateReport arguments
      (∀ request id members, ReportRequest.ofArguments arguments = .ok request →
        request.reportId = some id → step.answer = .ok members →
        ∃ report : Report, members = [("report", report.toJson)] ∧
          let n := report.totals.filesScanned
          step.progress =
              (ProgressMeter.counting n progressInterval clock n).reports.map (⟨id, ·⟩) ∧
            step.progress.head? = some ⟨id, 0, n⟩ ∧ step.progress.getLast? = some ⟨id, n, n⟩) ∧
      (∀ request, ReportRequest.ofArguments arguments = .ok request → request.reportId = none →
        step.progress = []) ∧
      ∀ e, step.answer = .error e → (∀ task breakdown, e ≠ .reportBroke task breakdown) →
        step.progress = [] := by
  refine ⟨fun total interval done hdone => ?_, fun α β items value limit interval steps => ?_, ?_⟩
  · have hpaced := ProgressMeter.counting_paced interval hclock hdone
    refine ⟨hpaced, fun hend => ?_⟩
    subst hend
    exact hpaced.count_total.2
  · have hsound := (CountingPool.sound_start items value limit interval clock).takeAll steps
    have hworkers := CountingPool.workers_ne_nil items value limit interval clock steps
    exact ⟨hsound.meter, hsound.once, hsound.length_counted_le, hsound.length_counted hworkers,
      hsound.exists_allStopped⟩
  · rintro around server arguments rfl
    refine ⟨fun request id members hrequest hid hanswer => ?_,
      fun request => server.report_progress_of_no_id around arguments,
      fun e => server.report_progress_of_refused around arguments⟩
    obtain ⟨report, hmembers, hprogress⟩ :=
      server.report_progress_of_completed around arguments hrequest hid hanswer
    have hpaced := ProgressMeter.counting_paced progressInterval hclock
      (Nat.le_refl report.totals.filesScanned)
    have hlast := hpaced.final rfl
    refine ⟨report, hmembers, hprogress, ?_, ?_⟩
    · show (server.report around arguments).progress.head? = _
      rw [hprogress, List.head?_map, hpaced.first]
      rfl
    · show (server.report around arguments).progress.getLast? = _
      rw [hprogress, List.getLast?_map, hlast]
      rfl

/-- Files that are done sixty milliseconds apart: the first of them is passed over. -/
theorem first_of_two_passed_over :
    let around : Surroundings :=
      { tree := mixedFiles
        compiler := fun _ => .ok (.ok { code := some "", events := [] })
        reports := { generatedAt := "", clock := (60000000 * ·) }
        task := "" }
    let server : Server :=
      { session := { root := some ⟨[FilePath.slash]⟩ }, settings := { pluginPath := "p" } }
    let step := server.execute around .generateReport [.obj [("reportId", .nat 7)]]
    (∃ members, step.answer = .ok members) ∧
      step.progress = [⟨.nat 7, 0, 2⟩, ⟨.nat 7, 2, 2⟩] := by
  intro around server step
  have hclock : Monotone (60000000 * · : Nat → Nat) := fun _ _ h => Nat.mul_le_mul_left _ h
  have hrequest : ReportRequest.ofArguments [.obj [("reportId", .nat 7)]] =
      .ok { reportId := some (.nat 7) } := rfl
  have hhint : FilePath.ofString "p" = mixedOptions.hint := by decide
  have hoptions : ReportRequest.options { reportId := some (.nat 7) } ⟨[FilePath.slash]⟩
      server.settings = mixedOptions := by
    rw [ReportRequest.options, hhint]
    rfl
  have hfolder : mixedFiles.isFolder ⟨[FilePath.slash]⟩ = true := by
    rw [FileTree.isFolder, mixedFiles_entry]
    rfl
  have habsolute : mixedOptions.root.absolute? mixedFiles.cwdPath = some ⟨[FilePath.slash]⟩ := rfl
  have hrun := generateReport_answer (fun _ => .ok { code := some "", events := [] })
    around.reports server.checker habsolute hfolder mixedFiles_resolvePlugin
  rw [mixedFiles_sourceFiles] at hrun
  obtain ⟨report, hreport, hscanned⟩ : ∃ report, (generateReport mixedFiles around.compiler
      server.checker around.reports mixedOptions).answer = .ok (.ok report) ∧
      report.totals.filesScanned = 2 := ⟨_, hrun, rfl⟩
  have hanswer : step.answer = .ok [("report", report.toJson)] := by
    have hroot : (none : Option FilePath).or server.session.root = some ⟨[FilePath.slash]⟩ := rfl
    simp only [step, Server.execute, Server.report, hrequest, hroot, hoptions]
    rw [hreport]
  obtain ⟨-, -, hcommand⟩ := progress_paced hclock
  obtain ⟨htold, -, -⟩ := hcommand around server [.obj [("reportId", .nat 7)]] rfl
  obtain ⟨report', hsame, hprogress, -, -⟩ := htold _ _ _ hrequest rfl hanswer
  -- the answer shows how many files were scanned
  have hcount : report'.totals.filesScanned = 2 := by
    rw [← hscanned]
    simp only [Report.toJson, Totals.toJson, List.cons.injEq, Prod.mk.injEq, Json.obj.injEq,
      Json.nat, Json.int.injEq, Int.natCast_inj] at hsame
    exact hsame.1.2.2.1.2.1.2.symm
  refine ⟨⟨_, hanswer⟩, hprogress.trans ?_⟩
  rw [hcount]
  rfl

end MemoHints
