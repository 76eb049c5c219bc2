import MemoHints.Proofs.Checker.Transparency
import MemoHints.Server.Command

/-!
# Commands fail softly

A command is turned away for its arguments, for a document that is not open, or for a report without
a folder.  All of this is found out before anything is done for it (`TurnedAway`): the compiler is
not asked, nothing is told, and the server stays as it was.  A command that is begun can still fail,
and then it may have looked for the plugin.  Besides that, and the hints that are turned on or off,
no command changes the server (`executeNamed_soft`).
-/

namespace MemoHints

open Json

/-! ## Names -/

namespace Command

theorem ofName?_eq_some_iff {name : String} {command : Command} :
    ofName? name = some command ↔ command.name = name := by
  constructor
  · intro h
    have hname := List.find?_some (p := fun command : Command => decide (command.name = name)) h
    exact of_decide_eq_true hname
  · rintro rfl
    cases command <;> decide +kernel

theorem ofName?_eq_none_iff {name : String} :
    ofName? name = none ↔ ∀ command : Command, command.name ≠ name := by
  constructor
  · intro h command hname
    rw [ofName?_eq_some_iff.mpr hname] at h
    cases h
  · intro h
    cases hfound : ofName? name with
    | none => rfl
    | some command => exact absurd (ofName?_eq_some_iff.mp hfound) (h command)

theorem name_inj {a b : Command} : a.name = b.name ↔ a = b := by
  rw [← ofName?_eq_some_iff, ofName?_eq_some_iff.mpr rfl, Option.some_inj, eq_comm]

/-- The member of an answer that holds what a command is asked for. -/
def resultName? : Command → Option String
  | .activate | .deactivate => some "activated"
  | .compiledOutput => some "code"
  | .checkOnce => none
  | .generateReport => some "report"

end Command

/-! ## Refusals -/

/-- The errors of a command that was begun: there is no plugin, or no answer of the compiler. -/
def CommandError.Begun : CommandError → Prop
  | .compiler _ | .compilerBroke _ _ | .report (.compiler _) | .reportBroke _ _ => True
  | _ => False

/-- Why a command is not begun. -/
inductive TurnedAway (around : Surroundings) (server : Server) :
    Command → List Json → CommandError → Prop where
  | noUri {arguments : List Json} (h : ∀ text, arguments.head? ≠ some (.str text)) :
    TurnedAway around server .compiledOutput arguments .noUri
  | invalidUri {text : String} {rest : List Json} (h : Uri.ofString? text = none) :
    TurnedAway around server .compiledOutput (.str text :: rest) (.invalidUri text)
  | notOpen {text : String} {rest : List Json} {uri : Uri} (h : Uri.ofString? text = some uri)
    (hclosed : server.document? uri = none) :
    TurnedAway around server .compiledOutput (.str text :: rest) .notOpen
  | badOptions {v : Json} {rest : List Json} {e : ReadError} (hv : v ≠ .null)
    (h : ReportRequest.recordType.read v.sorted = .error e) :
    TurnedAway around server .generateReport (v :: rest) (.badOptions e)
  | noFolder {arguments : List Json} {request : ReportRequest}
    (h : ReportRequest.ofArguments arguments = .ok request) (hrequest : request.root = none)
    (hsession : server.session.root = none) :
    TurnedAway around server .generateReport arguments .noFolder
  | emptyRoot {arguments : List Json} {request : ReportRequest} {root : FilePath}
    (h : ReportRequest.ofArguments arguments = .ok request)
    (hroot : request.root.or server.session.root = some root)
    (hpath : root.absolute? around.tree.cwdPath = none) :
    TurnedAway around server .generateReport arguments (.report .emptyRoot)
  | notFolder {arguments : List Json} {request : ReportRequest} {root path : FilePath}
    (h : ReportRequest.ofArguments arguments = .ok request)
    (hroot : request.root.or server.session.root = some root)
    (hpath : root.absolute? around.tree.cwdPath = some path)
    (hfolder : around.tree.isFolder path = false) :
    TurnedAway around server .generateReport arguments (.report (.notFolder path))

theorem TurnedAway.command_eq {around : Surroundings} {server : Server} {command : Command}
    {arguments : List Json} {e : CommandError} (h : TurnedAway around server command arguments e) :
    command = .compiledOutput ∨ command = .generateReport := by
  cases h <;> simp

theorem ReportRequest.ofArguments_eq_error_iff {arguments : List Json} {e : ReadError} :
    ofArguments arguments = .error e ↔
      ∃ v rest, arguments = v :: rest ∧ v ≠ .null ∧ recordType.read v.sorted = .error e := by
  unfold ofArguments
  constructor
  · intro h
    split at h
    next => cases h
    next => cases h
    next v rest hv => exact ⟨v, rest, rfl, hv, h⟩
  · rintro ⟨v, rest, rfl, hv, h⟩
    cases v with
    | null => exact absurd rfl hv
    | _ => exact h

/-- The root of a report is refused when it is empty, or leads to no folder. -/
theorem ReportOptions.folder_eq_error_iff {tree : FileTree} {options : ReportOptions}
    {e : ReportError} : options.folder tree = .error e ↔
      (options.root.absolute? tree.cwdPath = none ∧ e = .emptyRoot) ∨
        ∃ path, options.root.absolute? tree.cwdPath = some path ∧ tree.isFolder path = false ∧
          e = .notFolder path := by
  unfold folder
  constructor
  · intro h
    split at h
    next hnone =>
      cases h
      exact .inl ⟨hnone, rfl⟩
    next path hpath =>
      split at h
      next => cases h
      next hfolder =>
        cases h
        exact .inr ⟨path, hpath, Bool.eq_false_iff.mpr hfolder, rfl⟩
  · rintro (⟨hnone, rfl⟩ | ⟨path, hpath, hfolder, rfl⟩)
    · simp only [hnone]
    · simp only [hpath, hfolder, Bool.false_eq_true, if_false]

/-- A report with a folder looks for the plugin, and is refused only for want of it. -/
theorem generateReport_of_folder {tree : FileTree} (compiler : Compiler) (checker : Checker)
    (context : ReportContext) {options : ReportOptions} {root : FilePath}
    (h : options.folder tree = .ok root) :
    let run := generateReport tree compiler checker context options
    run.checker = (checker.resolve tree ⟨some root, options.hint⟩).2 ∧
      ∀ e, run.answer = .ok (.error e) → (CommandError.report e).Begun := by
  unfold generateReport
  rw [h]
  dsimp only
  split
  next e checker' hresolve =>
    rw [hresolve]
    refine ⟨rfl, ?_⟩
    rintro _ ⟨⟩
    trivial
  next plugin checker' hresolve =>
    rw [hresolve]
    refine ⟨rfl, fun e hanswer => ?_⟩
    cases hscan : (scanAll tree compiler context options root plugin).1 with
    | error breakdown =>
      rw [hscan] at hanswer
      cases hanswer
    | ok report =>
      rw [hscan] at hanswer
      cases hanswer

/-- What becomes of a command. -/
inductive CommandRun (around : Surroundings) (server : Server) (arguments : List Json) :
    Command → CommandStep → Prop where
  | activate : CommandRun around server arguments .activate
    { answer := .ok [("activated", .bool true)], refreshHints := true
      server := server.activate true }
  | deactivate : CommandRun around server arguments .deactivate
    { answer := .ok [("activated", .bool false)], refreshHints := true
      server := server.activate false }
  | checkOnce : CommandRun around server arguments .checkOnce
    { answer := .ok [], refreshHints := true, server }
  | turnedAway {command : Command} {e : CommandError}
    (h : TurnedAway around server command arguments e) :
    CommandRun around server arguments command { answer := .error e, server }
  | begun {command : Command} {answer : CommandAnswer} {progress : List ReportProgress}
    {asked : List CompileRequest} (location : PluginLocation)
    (hcommand : command = .compiledOutput ∨ command = .generateReport)
    (hresult : ∀ members, answer = .ok members → members.map (·.1) = command.resultName?.toList)
    (hbegun : ∀ e, answer = .error e → e.Begun) :
    CommandRun around server arguments command
      { answer, progress, asked
        server := { server with checker := (server.checker.resolve around.tree location).2 } }

namespace Server

variable {around : Surroundings} {server : Server} {arguments : List Json} {e : CommandError}

theorem documentOf_eq_error_iff : server.documentOf arguments = .error e ↔
    TurnedAway around server .compiledOutput arguments e := by
  constructor
  · intro h
    unfold documentOf at h
    split at h
    next hnone =>
      cases h
      refine .noUri fun text htext => ?_
      rw [htext] at hnone
      cases hnone
    next text htext =>
      obtain ⟨v, hv, htext⟩ := Option.bind_eq_some_iff.mp htext
      obtain ⟨rest, rfl⟩ := List.head?_eq_some_iff.mp hv
      cases v with
      | str s =>
        cases htext
        split at h
        next huri =>
          cases h
          exact .invalidUri huri
        next uri huri =>
          split at h
          next hclosed =>
            cases h
            exact .notOpen huri hclosed
          next => cases h
      | _ => cases htext
  · intro h
    unfold documentOf
    cases h with
    | noUri h =>
      cases arguments with
      | nil => rfl
      | cons v rest =>
        cases v with
        | str text => exact absurd rfl (h text)
        | _ => rfl
    | invalidUri h => simp only [List.head?_cons, Option.bind_some, str?, h]
    | notOpen h hclosed => simp only [List.head?_cons, Option.bind_some, str?, h, hclosed]

/-- A report without a folder is not begun. -/
theorem report_of_folder_eq_error {request : ReportRequest} {root : FilePath} {e : ReportError}
    (h : ReportRequest.ofArguments arguments = .ok request)
    (hroot : request.root.or server.session.root = some root)
    (hfolder : (request.options root server.settings).folder around.tree = .error e) :
    server.report around arguments = { answer := .error (.report e), server } := by
  have htold : request.told [] = [] := by
    unfold ReportRequest.told
    split <;> rfl
  simp only [report, h, hroot, generateReport, hfolder, htold]

/-- A command that is turned away does nothing. -/
theorem execute_of_turnedAway {command : Command}
    (h : TurnedAway around server command arguments e) :
    server.execute around command arguments = { answer := .error e, server } := by
  cases command with
  | compiledOutput => simp only [execute, compiledOutput, documentOf_eq_error_iff.mpr h]
  | generateReport =>
    rw [execute]
    cases h with
    | @badOptions v rest _ hv h =>
      have hrequest := ReportRequest.ofArguments_eq_error_iff.mpr ⟨v, rest, rfl, hv, h⟩
      simp only [report, hrequest]
    | noFolder h hrequest hsession => simp only [report, h, hrequest, hsession, Option.or_none]
    | emptyRoot h hroot hpath =>
      exact report_of_folder_eq_error h hroot
        (ReportOptions.folder_eq_error_iff.mpr (.inl ⟨hpath, rfl⟩))
    | @notFolder _ _ _ path h hroot hpath hfolder =>
      exact report_of_folder_eq_error h hroot
        (ReportOptions.folder_eq_error_iff.mpr (.inr ⟨path, hpath, hfolder, rfl⟩))
  | activate => cases h
  | deactivate => cases h
  | checkOnce => cases h

theorem compiledOutput_run : CommandRun around server arguments .compiledOutput
    (server.compiledOutput around arguments) := by
  unfold compiledOutput
  cases hdocument : server.documentOf arguments with
  | error e => exact .turnedAway (documentOf_eq_error_iff.mp hdocument)
  | ok opened =>
    dsimp only
    rw [Checker.compiledOutput_checker]
    refine .begun server.pluginLocation (.inl rfl) (fun members h => ?_) fun e h => ?_
    · split at h <;> cases h
      rfl
    · split at h <;> cases h
      · trivial
      · trivial

theorem report_run : CommandRun around server arguments .generateReport
    (server.report around arguments) := by
  cases hrequest : ReportRequest.ofArguments arguments with
  | error e =>
    obtain ⟨v, rest, rfl, hv, hread⟩ := ReportRequest.ofArguments_eq_error_iff.mp hrequest
    simp only [report, hrequest]
    exact .turnedAway (.badOptions hv hread)
  | ok request =>
    cases hroot : request.root.or server.session.root with
    | none =>
      obtain ⟨hown, hsession⟩ := Option.or_eq_none_iff.mp hroot
      simp only [report, hrequest, hroot]
      exact .turnedAway (.noFolder hrequest hown hsession)
    | some root =>
      cases hfolder : (request.options root server.settings).folder around.tree with
      | error e =>
        rw [report_of_folder_eq_error hrequest hroot hfolder]
        rcases ReportOptions.folder_eq_error_iff.mp hfolder with
          ⟨hpath, rfl⟩ | ⟨path, hpath, hnone, rfl⟩
        · exact .turnedAway (.emptyRoot hrequest hroot hpath)
        · exact .turnedAway (.notFolder hrequest hroot hpath hnone)
      | ok path =>
        obtain ⟨hchecker, hbegun⟩ :=
          generateReport_of_folder around.compiler server.checker around.reports hfolder
        simp only [report, hrequest, hroot, hchecker]
        refine .begun _ (.inr rfl) (fun members h => ?_) fun e h => ?_
        · split at h <;> cases h
          rfl
        · split at h
          next => cases h
          next e' hanswer =>
            cases h
            exact hbegun e' hanswer
          next =>
            cases h
            trivial

/-- Every command is carried out in one of these ways. -/
theorem execute_run (command : Command) :
    CommandRun around server arguments command (server.execute around command arguments) := by
  cases command with
  | compiledOutput => exact compiledOutput_run
  | generateReport => exact report_run
  | activate => exact .activate
  | deactivate => exact .deactivate
  | checkOnce => exact .checkOnce

end Server

/-! ## Answers -/

/-- The members of an answer: each has a name of its own, one tells the success, and without success
one tells why and there is no result. -/
structure SoftAnswer (members : List (String × Json)) (success : Bool) : Prop where
  nodup : (members.map (·.1)).Nodup
  success_eq : members.lookup "success" = some (.bool success)
  failure : success = false → (∃ message, members.lookup "error" = some (.str message)) ∧
    members.lookup "code" = none ∧ members.lookup "report" = none

theorem CommandAnswer.softAnswer {answer : CommandAnswer} (command : Command)
    (h : ∀ members, answer = .ok members → members.map (·.1) = command.resultName?.toList) :
    ∃ members success, answer.toJson = .obj members ∧ SoftAnswer members success := by
  cases answer with
  | error e =>
    have hnames : ["success", "error"].Nodup := by decide
    exact ⟨_, false, rfl, hnames, rfl, fun _ => ⟨⟨e.message, rfl⟩, rfl, rfl⟩⟩
  | ok members =>
    refine ⟨_, true, rfl, ?_, rfl, (Bool.noConfusion ·)⟩
    rw [List.map_cons, h members rfl]
    cases command <;> decide

namespace CommandRun

variable {around : Surroundings} {server : Server} {arguments : List Json} {command : Command}
  {step : CommandStep}

theorem softAnswer (h : CommandRun around server arguments command step) :
    ∃ members success, step.answer.toJson = .obj members ∧ SoftAnswer members success := by
  refine CommandAnswer.softAnswer command fun members hmembers => ?_
  cases h with
  | begun _ _ hresult _ => exact hresult members hmembers
  | turnedAway => cases hmembers
  | activate =>
    cases hmembers
    rfl
  | deactivate =>
    cases hmembers
    rfl
  | checkOnce =>
    cases hmembers
    rfl

/-- Besides the checker, and whether hints are on, nothing is touched. -/
theorem server_eq (h : CommandRun around server arguments command step) :
    step.server = { server with
      checker := step.server.checker, activated := step.server.activated } := by
  cases h <;> rfl

theorem activated_eq (h : CommandRun around server arguments command step) :
    step.server.activated = if command = .activate then true
      else if command = .deactivate then false else server.activated := by
  cases h with
  | turnedAway h => rcases h.command_eq with rfl | rfl <;> rfl
  | begun _ hcommand => rcases hcommand with rfl | rfl <;> rfl
  | _ => rfl

theorem refreshHints_iff (h : CommandRun around server arguments command step) :
    step.refreshHints = true ↔ command ∈ [.activate, .deactivate, .checkOnce] := by
  cases h with
  | turnedAway h => rcases h.command_eq with rfl | rfl <;> simp
  | begun _ hcommand => rcases hcommand with rfl | rfl <;> simp
  | _ => simp

theorem checker_eq (h : CommandRun around server arguments command step) :
    step.server.checker = server.checker ∨
      ∃ location, step.server.checker = (server.checker.resolve around.tree location).2 := by
  cases h with
  | begun location => exact .inr ⟨location, rfl⟩
  | _ => exact .inl rfl

theorem turnedAway_or_begun (h : CommandRun around server arguments command step)
    {e : CommandError} (he : step.answer = .error e) :
    TurnedAway around server command arguments e ∨ e.Begun := by
  cases h with
  | turnedAway h =>
    cases he
    exact .inl h
  | begun _ _ _ hbegun => exact .inr (hbegun e he)
  | _ => cases he

end CommandRun

/-- Why a name with arguments is refused. -/
inductive Refused (around : Surroundings) (server : Server) (name : String)
    (arguments : List Json) : CommandError → Prop where
  | unknown (h : ∀ command : Command, command.name ≠ name) :
    Refused around server name arguments .unknown
  | turnedAway {command : Command} {e : CommandError} (hname : command.name = name)
    (h : TurnedAway around server command arguments e) : Refused around server name arguments e

/-- A step that a name with arguments may lead a server to. -/
structure SoftStep (around : Surroundings) (server : Server) (name : String)
    (arguments : List Json) (step : CommandStep) : Prop where
  answer : ∃ members success, step.answer.toJson = .obj members ∧ SoftAnswer members success
  /-- The open documents, the settings and the session are among what stays. -/
  rest : step.server = { server with
    checker := step.server.checker, activated := step.server.activated }
  /-- The checker learns nothing, or where the plugin is. -/
  checker : step.server.checker = server.checker ∨
    ∃ location, step.server.checker = (server.checker.resolve around.tree location).2
  activated : step.server.activated =
    if name = Command.activate.name then true
    else if name = Command.deactivate.name then false
    else server.activated
  refreshHints : step.refreshHints = true ↔
    name ∈ [Command.activate.name, Command.deactivate.name, Command.checkOnce.name]
  /-- A refusal comes before anything is done. -/
  refused : ∀ e, Refused around server name arguments e →
    step.answer = .error e ∧ step.asked = [] ∧ step.progress = [] ∧ step.server = server
  failed : ∀ e, step.answer = .error e → Refused around server name arguments e ∨ e.Begun

namespace Server

variable (around : Surroundings) (server : Server) (name : String) (arguments : List Json)

theorem executeNamed_of_refused {e : CommandError} (h : Refused around server name arguments e) :
    server.executeNamed around name arguments = { answer := .error e, server } := by
  cases h with
  | unknown h => simp only [executeNamed, Command.ofName?_eq_none_iff.mpr h]
  | turnedAway hname h =>
    simp only [executeNamed, Command.ofName?_eq_some_iff.mpr hname, execute_of_turnedAway h]

/-- **Commands fail softly.**  Whatever a command is asked with, it answers with an object that
tells whether it succeeded, and a failure tells why.  Only two commands turn hints on and off, and
after these and one other the editor requests its hints again.  Nothing else of the server changes
but what the checker knows of the plugin, and a command that is refused does nothing at all. -/
theorem executeNamed_soft :
    SoftStep around server name arguments (server.executeNamed around name arguments) := by
  have hrefused : ∀ e, Refused around server name arguments e →
      let step := server.executeNamed around name arguments
      step.answer = .error e ∧ step.asked = [] ∧ step.progress = [] ∧ step.server = server := by
    intro e h
    rw [executeNamed_of_refused around server name arguments h]
    exact ⟨rfl, rfl, rfl, rfl⟩
  cases hname : Command.ofName? name with
  | none =>
    have hother := Command.ofName?_eq_none_iff.mp hname
    have hunknown : Refused around server name arguments .unknown := .unknown hother
    rw [executeNamed_of_refused around server name arguments hunknown] at hrefused ⊢
    refine ⟨?_, rfl, .inl rfl, ?_, ?_, hrefused, ?_⟩
    · refine CommandAnswer.softAnswer .checkOnce ?_
      rintro _ ⟨⟩
    · rw [if_neg (hother _).symm, if_neg (hother _).symm]
    · simp [(hother _).symm]
    · rintro e ⟨⟩
      exact .inl hunknown
  | some command =>
    obtain rfl := Command.ofName?_eq_some_iff.mp hname
    have hstep : server.executeNamed around command.name arguments =
        server.execute around command arguments := by
      simp only [executeNamed, hname]
    rw [hstep] at hrefused ⊢
    have hrun : CommandRun around server arguments command _ := execute_run command
    refine ⟨hrun.softAnswer, hrun.server_eq, hrun.checker_eq, ?_, ?_, hrefused, fun e he => ?_⟩
    · simp only [Command.name_inj]
      exact hrun.activated_eq
    · rw [hrun.refreshHints_iff]
      simp [Command.name_inj]
    · exact (hrun.turnedAway_or_begun he).imp (.turnedAway rfl) id

/-- A number is no address. -/
example :
    (server.executeNamed around "react-compiler-marker/getCompiledOutput" [.nat 1]).answer.toJson =
      .obj [("success", .bool false), ("error", .str "No URI provided")] := by
  rfl

end Server

end MemoHints
