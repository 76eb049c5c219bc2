import MemoHints.Compiler.Node
import MemoHints.Proofs.Json.Parts
import MemoHints.Proofs.Json.Written
import MemoHints.Proofs.Results
import MemoHints.Proofs.Text.Utf8

/-!
# What the compiler is asked and what it answers

A request is written as one JSON text, and whoever reads it by the grammar of JSON gets the texts of
the request back (`isTextOf_payloadJson`); so requests that differ are written differently
(`payload_inj`).

A reply is read as a whole.  `Reply.IsSaidBy` says which bytes are a reply, by the grammar and by
what its parts are, without the reader; what a run that ended says is determined by it
(`answers_iff`).  The reader is strict where it looks: members that neither a reply nor an event has
are of the form of JSON, but what is in them is not looked at.

## Processes

How the system starts a program, what becomes of the input, and whether the process can be waited
for are not known here, so all of this is a `Launcher` that may do anything.  A program that is not
started, an input that is not taken and an end that is not seen are three failures, told apart from
what a run says, and nothing else can happen (`gives_iff`).
-/

namespace MemoHints.Node

open Json

/-! ## Requests -/

section Requests

variable {request request' : CompileRequest} {text : String}

theorem toString?_eq_some_iff {p : FilePath} {s : String} :
    p.toString? = some s ↔ p = .ofString s := by
  rw [FilePath.toString?, Text.Utf8.decode?_eq_some_iff, FilePath.ofString, FilePath.mk.injEq]

theorem pathText_eq_ok_iff {p : FilePath} {s : String} : pathText p = .ok s ↔ p = .ofString s := by
  rw [← toString?_eq_some_iff, pathText]
  cases p.toString? with
  | none => exact ⟨nofun, nofun⟩
  | some t => simp

/-- The paths of a request are texts. -/
structure HasPaths (request : CompileRequest) (plugin : String) (root : Option String) : Prop where
  plugin_eq : request.plugin = .ofString plugin
  root_eq : request.root = root.map .ofString

/-- A request is written if its paths are texts, and then as the object of its members. -/
theorem payload_eq_ok_iff : payload request = .ok text ↔ ∃ plugin root,
    HasPaths request plugin root ∧
      text = (payloadJson request.source request.filename plugin root request.mode).compact := by
  obtain ⟨source, filename, pluginPath, rootPath, mode⟩ := request
  rw [payload, bind_eq_ok]
  constructor
  · rintro ⟨plugin, hplugin, h⟩
    rw [pathText_eq_ok_iff] at hplugin
    cases rootPath with
    | none =>
      cases h
      exact ⟨plugin, none, ⟨hplugin, rfl⟩, rfl⟩
    | some path =>
      obtain ⟨root, hroot, h⟩ := bind_eq_ok.mp h
      cases h
      cases hpath : pathText path with
      | error e => simp [hpath] at hroot
      | ok s =>
        rw [hpath] at hroot
        cases hroot
        exact ⟨plugin, some s, ⟨hplugin, congrArg some (pathText_eq_ok_iff.mp hpath)⟩, rfl⟩
  · rintro ⟨plugin, root, ⟨hplugin, rfl⟩, rfl⟩
    refine ⟨plugin, pathText_eq_ok_iff.mpr hplugin, ?_⟩
    cases root with
    | none => rfl
    | some s =>
      simp only [Option.map_some, pathText_eq_ok_iff.mpr (rfl : FilePath.ofString s = _)]
      rfl

theorem plain_payloadJson (source filename plugin : String) (root : Option String)
    (mode : EmitMode) : Plain 1 (payloadJson source filename plugin root mode) := by
  refine .obj fun m hm => ?_
  simp only [List.mem_cons, List.not_mem_nil, or_false] at hm
  rcases hm with rfl | rfl | rfl | rfl | rfl
  · exact .str source
  · exact .str filename
  · exact .str plugin
  · cases root with
    | none => exact .null
    | some root => exact .str root
  · exact .str mode.name

/-- A request is written as a text of its own members and of nothing else. -/
theorem isTextOf_payloadJson {source filename plugin : String} {root : Option String}
    {mode : EmitMode} {v : Json} :
    IsTextOf (payloadJson source filename plugin root mode).compact v ↔
      v = payloadJson source filename plugin root mode := by
  have hread := read_compact (plain_payloadJson source filename plugin root mode) (by decide)
  rw [← read_eq_some_iff, hread, Option.some_inj, eq_comm]

theorem name_inj {mode mode' : EmitMode} (h : mode.name = mode'.name) : mode = mode' := by
  cases mode <;> cases mode' <;> simp_all [EmitMode.name]

theorem payloadJson_inj {source source' filename filename' plugin plugin' : String}
    {root root' : Option String} {mode mode' : EmitMode}
    (h : payloadJson source filename plugin root mode =
      payloadJson source' filename' plugin' root' mode') :
    source = source' ∧ filename = filename' ∧ plugin = plugin' ∧ root = root' ∧ mode = mode' := by
  simp only [payloadJson, obj.injEq, List.cons.injEq, Prod.mk.injEq, true_and, str.injEq,
    and_true] at h
  obtain ⟨rfl, rfl, rfl, hroot, hmode⟩ := h
  refine ⟨rfl, rfl, rfl, ?_, name_inj hmode⟩
  cases root <;> cases root' <;> simp_all [ofOption]

/-- Different requests are written differently. -/
theorem payload_inj (h : payload request = .ok text) (h' : payload request' = .ok text) :
    request = request' := by
  obtain ⟨plugin, root, hpaths, rfl⟩ := payload_eq_ok_iff.mp h
  obtain ⟨plugin', root', hpaths', htext⟩ := payload_eq_ok_iff.mp h'
  have hv := isTextOf_payloadJson.mpr
    (rfl : payloadJson request.source request.filename plugin root request.mode = _)
  rw [htext, isTextOf_payloadJson] at hv
  obtain ⟨hsource, hfilename, rfl, rfl, hmode⟩ := payloadJson_inj hv
  obtain ⟨source, filename, pluginPath, rootPath, mode⟩ := request
  obtain ⟨source', filename', pluginPath', rootPath', mode'⟩ := request'
  obtain ⟨rfl, rfl⟩ := hpaths
  obtain ⟨rfl, rfl⟩ := hpaths'
  simp_all

end Requests

/-! ## Replies -/

namespace Reply

/-- A text that may be missing, or be null in its place. -/
def MayBeText (found : Option Json) : Option String → Prop
  | some s => found = some (.str s)
  | none => found = none ∨ found = some .null

/-- The events of a reply: all items of a list, each of them an event, in their order. -/
def AreEvents (found : Option Json) (events : List DiagnosticEvent) : Prop :=
  found = none ∧ events = [] ∨
    ∃ items, found = some (.arr items) ∧
      List.Forall₂ (fun item event => DiagnosticEvent.read item = .ok event) items events

/-- The parts are those of the reply. -/
structure IsMadeOf (reply : Reply) (parts : List (String × Json)) : Prop where
  ok : parts.lookup "ok" = some (.bool reply.ok)
  code : MayBeText (parts.lookup "code") reply.code
  events : AreEvents (parts.lookup "events") reply.events
  message : MayBeText (parts.lookup "message") reply.message

/-- The bytes are a JSON value that gives the parts of the reply.  Strings and numbers are looked at
in those parts only. -/
def IsSaidBy (reply : Reply) (bytes : List UInt8) : Prop :=
  ∃ v parts, Holds interest (Text.Utf8.decode bytes) v ∧ recordType.Takes v parts ∧
    reply.IsMadeOf parts

theorem components :
    recordType.Component "ok" readBool Reply.ok ∧
    recordType.Component "code" (readOption readString) Reply.code ∧
    recordType.Component "events" (readList DiagnosticEvent.read) Reply.events ∧
    recordType.Component "message" (readOption readString) Reply.message := by
  refine ⟨.of_assign (fun b x => { x with ok := b }) (fun _ _ => rfl) (fun _ _ => rfl) ?_,
    .of_assign (fun o x => { x with code := o }) (fun _ _ => rfl) (fun _ _ => rfl) ?_,
    .of_assign (fun l x => { x with events := l }) (fun _ _ => rfl) (fun _ _ => rfl) ?_,
    .of_assign (fun o x => { x with message := o }) (fun _ _ => rfl) (fun _ _ => rfl) ?_⟩
  all_goals
    intro x y other v hne h
    simp only [recordType] at h
    split at h
    case h_5 =>
      cases h
      rfl
    all_goals
      first
      | exact absurd rfl hne
      | obtain ⟨b, -, h⟩ := bind_eq_ok.mp h
        cases h
        rfl

theorem supplies_text {found : Option Json} {text : Option String} :
    RecordType.Supplies (readOption readString) none found text ↔ MayBeText found text := by
  cases found with
  | none => cases text <;> simp [RecordType.Supplies, MayBeText]
  | some v => cases v <;> cases text <;>
      simp [RecordType.Supplies, MayBeText, readOption, readString, Except.map, eq_comm]

theorem supplies_events {found : Option Json} {events : List DiagnosticEvent} :
    RecordType.Supplies (readList DiagnosticEvent.read) [] found events ↔
      AreEvents found events := by
  cases found with
  | none => simp [RecordType.Supplies, AreEvents]
  | some v =>
    cases v with
    | arr items => simp [RecordType.Supplies, AreEvents, readList, mapM_eq_ok_iff]
    | _ => simp [RecordType.Supplies, AreEvents, readList]

section Parts

variable {v : Json} {parts : List (String × Json)} {reply : Reply}

theorem isMadeOf_iff (h : recordType.Takes v parts) : reply.IsMadeOf parts ↔
    RecordType.Supplies readBool false (parts.lookup "ok") reply.ok ∧
    RecordType.Supplies (readOption readString) none (parts.lookup "code") reply.code ∧
    RecordType.Supplies (readList DiagnosticEvent.read) [] (parts.lookup "events") reply.events ∧
    RecordType.Supplies (readOption readString) none (parts.lookup "message") reply.message := by
  have hok : RecordType.Supplies readBool false (parts.lookup "ok") reply.ok ↔
      parts.lookup "ok" = some (.bool reply.ok) := by
    -- a reply cannot do without this field
    have hmem := h.mem_of_always (by decide : ("ok", Need.always) ∈ recordType.fields) rfl
    cases hfound : parts.lookup "ok" with
    | none => exact absurd hmem (lookup_eq_none_iff_not_mem.mp hfound)
    | some v => cases v <;> simp [RecordType.Supplies, readBool]
  rw [hok, supplies_text, supplies_events, supplies_text]
  constructor
  · rintro ⟨hok, hcode, hevents, hmessage⟩
    exact ⟨hok, hcode, hevents, hmessage⟩
  · rintro ⟨hok, hcode, hevents, hmessage⟩
    exact ⟨hok, hcode, hevents, hmessage⟩

/-- The parts are put into a reply if it is made of them. -/
theorem put_eq_ok_iff (h : recordType.Takes v parts) :
    recordType.put {} parts = .ok reply ↔ reply.IsMadeOf parts := by
  obtain ⟨hok, hcode, hevents, hmessage⟩ := components
  have hnodup := h.nodup (by decide)
  have hsound : ∀ {reply : Reply}, recordType.put {} parts = .ok reply → reply.IsMadeOf parts :=
    fun hput => (isMadeOf_iff h).mpr ⟨hok.supplies_of_put hnodup hput,
      hcode.supplies_of_put hnodup hput, hevents.supplies_of_put hnodup hput,
      hmessage.supplies_of_put hnodup hput⟩
  refine ⟨hsound, fun hmade => ?_⟩
  obtain ⟨hok', hcode', hevents', hmessage'⟩ := (isMadeOf_iff h).mp hmade
  have hset : ∀ part ∈ parts, ∀ x, ∃ y, recordType.set x part.1 part.2 = .ok y := by
    rintro ⟨name, w⟩ hpart x
    have hlookup := (lookup_eq_some_iff_mem hnodup).mpr hpart
    have hname : name ∈ recordType.names := h.mem_names hpart
    simp only [RecordType.names, recordType, List.map_cons, List.map_nil, List.mem_cons,
      List.not_mem_nil, or_false] at hname
    rcases hname with rfl | rfl | rfl | rfl
    · rw [hlookup] at hok'
      exact hok.exists_set x hok'
    · rw [hlookup] at hcode'
      exact hcode.exists_set x hcode'
    · rw [hlookup] at hevents'
      exact hevents.exists_set x hevents'
    · rw [hlookup] at hmessage'
      exact hmessage.exists_set x hmessage'
  obtain ⟨found, hput⟩ := RecordType.exists_put hset {}
  obtain ⟨hok'', hcode'', hevents'', hmessage''⟩ := (isMadeOf_iff h).mp (hsound hput)
  have heq : found = reply := by
    obtain ⟨ok, code, events, message⟩ := reply
    obtain ⟨ok', code', events', message'⟩ := found
    rw [Reply.mk.injEq]
    exact ⟨hok''.unique hok', hcode''.unique hcode', hevents''.unique hevents',
      hmessage''.unique hmessage'⟩
  rwa [heq] at hput

end Parts

theorem ofBytes?_eq_some_iff {bytes : List UInt8} {reply : Reply} :
    ofBytes? bytes = some reply ↔ reply.IsSaidBy bytes := by
  rw [ofBytes?, Option.bind_eq_bind, Option.bind_eq_some_iff]
  simp only [toOption_eq_some_iff, RecordType.read_eq_ok_iff, readBytes, readInput_eq_some_iff]
  constructor
  · rintro ⟨v, hv, parts, htakes, hput⟩
    exact ⟨v, parts, hv, htakes, (put_eq_ok_iff htakes).mp hput⟩
  · rintro ⟨v, parts, hv, htakes, hparts⟩
    exact ⟨v, hv, parts, htakes, (put_eq_ok_iff htakes).mpr hparts⟩

end Reply

/-! ## Runs -/

/-- What a run says with what it left behind.  The cases exclude each other, and there is no
other. -/
inductive Answers (result : ProcessResult) : Except CompileError CompileOutput → Prop where
  | empty (h : result.stdout = []) : Answers result (.error (.gaveUp
      ("node exited with " ++ result.status.display ++ ": " ++
        String.ofList (Text.trim (Text.Utf8.decodeLossy result.stderr).toList))))
  | output {reply : Reply} (h : reply.IsSaidBy result.stdout) (hok : reply.ok = true) :
    Answers result (.ok ⟨reply.code, reply.events⟩)
  | gaveUp {reply : Reply} (h : reply.IsSaidBy result.stdout) (hok : reply.ok = false) :
    Answers result (.error (.gaveUp (reply.message.getD "Unknown compiler failure")))
  | invalidOutput (hne : result.stdout ≠ []) (h : ∀ reply : Reply, ¬ reply.IsSaidBy result.stdout) :
    Answers result (.error (.invalidOutput "Could not parse compiler output"))

section Runs

variable {result : ProcessResult} {answer : Except CompileError CompileOutput}

theorem Reply.IsSaidBy.ne_nil {reply : Reply} {bytes : List UInt8} (h : reply.IsSaidBy bytes) :
    bytes ≠ [] := by
  rintro rfl
  obtain ⟨v, parts, ⟨text, hwhole, hdenotes⟩, -⟩ := h
  obtain ⟨c, more, hbody, -⟩ := hdenotes.exists_cons
  rw [Text.Utf8.decode_eq_nil_iff.mpr rfl] at hwhole
  simp [Padded.whole, hbody] at hwhole

theorem outcome_of_nil (h : result.stdout = []) : result.outcome = .error (.gaveUp
    ("node exited with " ++ result.status.display ++ ": " ++
      String.ofList (Text.trim (Text.Utf8.decodeLossy result.stderr).toList))) := by
  simp [ProcessResult.outcome, h]

theorem outcome_of_isSaidBy {reply : Reply} (h : reply.IsSaidBy result.stdout) :
    result.outcome = reply.outcome := by
  simp [ProcessResult.outcome, h.ne_nil, Reply.ofBytes?_eq_some_iff.mpr h]

theorem outcome_of_forall_not (hne : result.stdout ≠ [])
    (h : ∀ reply : Reply, ¬ reply.IsSaidBy result.stdout) :
    result.outcome = .error (.invalidOutput "Could not parse compiler output") := by
  have hnone : Reply.ofBytes? result.stdout = none :=
    Option.eq_none_iff_forall_ne_some.mpr fun reply hsome =>
      h reply (Reply.ofBytes?_eq_some_iff.mp hsome)
  simp [ProcessResult.outcome, hne, hnone]

theorem answers_iff : Answers result answer ↔ answer = result.outcome := by
  constructor
  · intro h
    cases h with
    | empty h => exact (outcome_of_nil h).symm
    | output h hok => rw [outcome_of_isSaidBy h, Reply.outcome, if_pos hok]
    | gaveUp h hok => rw [outcome_of_isSaidBy h, Reply.outcome, if_neg (by simp [hok])]
    | invalidOutput hne h => exact (outcome_of_forall_not hne h).symm
  · rintro rfl
    by_cases hempty : result.stdout = []
    · rw [outcome_of_nil hempty]
      exact .empty hempty
    · by_cases hreply : ∃ reply : Reply, reply.IsSaidBy result.stdout
      · obtain ⟨reply, hreply⟩ := hreply
        rw [outcome_of_isSaidBy hreply, Reply.outcome]
        split
        next hok => exact .output hreply hok
        next hok => exact .gaveUp hreply (by simpa using hok)
      · have hnone := not_exists.mp hreply
        rw [outcome_of_forall_not hempty hnone]
        exact .invalidOutput hempty hnone

end Runs

/-! ## Processes -/

/-- What comes of a program that is to be started in a folder and given an input.  It is not
started, does not take its input, cannot be waited for, or leaves something behind that answers. -/
inductive Gives (launch : Launcher) (program : FilePath) (folder : Option FilePath)
    (input : String) : Except CompileError CompileOutput → Prop where
  | notStarted {message : String} (h : launch program folder = .error message) :
    Gives launch program folder input (.error (.spawn program.display message))
  | notWritten {child : Child} {message : String} (h : launch program folder = .ok child)
    (hwrite : child.write input = .error message) : Gives launch program folder input
      (.error (.spawn program.display ("Failed to write request: " ++ message)))
  | notAwaited {child : Child} {message : String} (h : launch program folder = .ok child)
    (hwrite : child.write input = .ok ()) (hwait : child.wait input = .error message) :
    Gives launch program folder input (.error (.spawn program.display message))
  | ended {child : Child} {result : ProcessResult} {answer : Except CompileError CompileOutput}
    (h : launch program folder = .ok child) (hwrite : child.write input = .ok ())
    (hwait : child.wait input = .ok result) (hanswer : Answers result answer) :
    Gives launch program folder input answer

section Processes

variable {launch : Launcher} {program : FilePath} {folder : Option FilePath} {input : String}
  {message : String} {child : Child} {result : ProcessResult}

theorem run_of_notStarted (h : launch program folder = .error message) :
    launch.run program folder input = .error (.spawn program.display message) := by
  rw [Launcher.run, h]
  rfl

theorem run_of_notWritten (h : launch program folder = .ok child)
    (hwrite : child.write input = .error message) : launch.run program folder input =
      .error (.spawn program.display ("Failed to write request: " ++ message)) := by
  simp only [Launcher.run, bind, Except.bind, Except.mapError, h, hwrite]

theorem run_of_notAwaited (h : launch program folder = .ok child)
    (hwrite : child.write input = .ok ()) (hwait : child.wait input = .error message) :
    launch.run program folder input = .error (.spawn program.display message) := by
  simp only [Launcher.run, bind, Except.bind, Except.mapError, h, hwrite, hwait]

theorem run_of_ended (h : launch program folder = .ok child)
    (hwrite : child.write input = .ok ()) (hwait : child.wait input = .ok result) :
    launch.run program folder input = result.outcome := by
  simp only [Launcher.run, bind, Except.bind, Except.mapError, h, hwrite, hwait]

theorem gives_iff {answer : Except CompileError CompileOutput} :
    Gives launch program folder input answer ↔ answer = launch.run program folder input := by
  constructor
  · intro hgives
    cases hgives with
    | notStarted h => exact (run_of_notStarted h).symm
    | notWritten h hwrite => exact (run_of_notWritten h hwrite).symm
    | notAwaited h hwrite hwait => exact (run_of_notAwaited h hwrite hwait).symm
    | ended h hwrite hwait hanswer =>
      rw [run_of_ended h hwrite hwait, answers_iff.mp hanswer]
  · rintro rfl
    cases h : launch program folder with
    | error message =>
      rw [run_of_notStarted h]
      exact .notStarted h
    | ok child =>
      cases hwrite : child.write input with
      | error message =>
        rw [run_of_notWritten h hwrite]
        exact .notWritten h hwrite
      | ok =>
        cases hwait : child.wait input with
        | error message =>
          rw [run_of_notAwaited h hwrite hwait]
          exact .notAwaited h hwrite hwait
        | ok result =>
          rw [run_of_ended h hwrite hwait]
          exact .ended h hwrite hwait (answers_iff.mpr rfl)

theorem compile_of_payload {request : CompileRequest} (htext : payload request = .ok input) :
    compile launch program request = .ok (launch.run program request.root input) := by
  rw [compile, htext]
  rfl

/-- **A request arrives as it is, and a reply is taken as a whole.**  Whatever the system makes of
the program, one thing comes of it. -/
theorem exchange (launch : Launcher) (program : FilePath) {request : CompileRequest}
    {plugin : String} {root : Option String} (hpaths : HasPaths request plugin root) :
    ∃ text, payload request = .ok text ∧
      (∀ v, IsTextOf text v ↔ v = .obj [("source", .str request.source),
        ("filename", .str request.filename), ("pluginPath", .str plugin),
        ("workspaceRoot", (root.map .str).getD .null),
        ("mode", .str (if request.mode = .emit then "emit" else "diagnostics"))]) ∧
      (∀ other, payload other = .ok text → other = request) ∧
      ∃ answer, compile launch program request = .ok answer ∧
        ∀ other, Gives launch program request.root text other ↔ other = answer := by
  have htext := payload_eq_ok_iff.mpr ⟨plugin, root, hpaths, rfl⟩
  refine ⟨_, htext, fun v => ?_, fun other hother => payload_inj hother htext, _,
    compile_of_payload htext, fun other => gives_iff⟩
  rw [isTextOf_payloadJson, payloadJson]
  cases request.mode <;> rfl

/-! A program found by its name, which takes its input and writes a reply; a request of characters
that JSON escapes or that UTF-8 takes several bytes for, and a reply that refuses it. -/

def replying (stdout : List UInt8) : Launcher := fun _ _ =>
  .ok { write := fun _ => .ok (), wait := fun _ => .ok { stdout } }

def oddRequest : CompileRequest :=
  ⟨"\"\\\n\x00\u2028😀", "😀.tsx", .ofString "/p", none, .emit⟩

def refusal : List UInt8 :=
  Text.Utf8.encode "\x7b\"message\":\"😀\",\"ok\":false\x7d"

theorem exchange_oddRequest : ∃ text, payload oddRequest = .ok text ∧
    IsTextOf text (.obj [("source", .str "\"\\\n\x00\u2028😀"),
      ("filename", .str "😀.tsx"), ("pluginPath", .str "/p"), ("workspaceRoot", .null),
      ("mode", .str "emit")]) ∧
    compile (replying refusal) (.ofString "node") oddRequest = .ok (.error (.gaveUp "😀")) := by
  have hpaths : HasPaths oddRequest "/p" none := ⟨rfl, rfl⟩
  have hread : (Reply.ofBytes? refusal).map (fun reply => (reply.ok, reply.message)) =
      some (false, some "😀") := by decide +kernel
  obtain ⟨reply, hreply, hparts⟩ := Option.map_eq_some_iff.mp hread
  obtain ⟨hok, hmessage⟩ := Prod.mk.inj hparts
  have hanswers : Answers { stdout := refusal }
      (.error (.gaveUp (reply.message.getD "Unknown compiler failure"))) :=
    .gaveUp (Reply.ofBytes?_eq_some_iff.mp hreply) hok
  obtain ⟨text, htext, hvalue, -, answer, hanswer, hunique⟩ :=
    exchange (replying refusal) (.ofString "node") hpaths
  refine ⟨text, htext, (hvalue _).mpr rfl, ?_⟩
  have hgives : Gives (replying refusal) (.ofString "node") oddRequest.root text
      (.error (.gaveUp (reply.message.getD "Unknown compiler failure"))) :=
    .ended rfl rfl rfl hanswers
  rw [hanswer, ← (hunique _).mp hgives, hmessage]
  rfl

/-- A reply with a member that replies do not have, in which a byte is broken. -/
def brokenMember : List UInt8 :=
  Text.Utf8.encode "\x7b\"ok\":true,\"code\":\"c\",\"x\":\"" ++
    0xFF :: Text.Utf8.encode "\"\x7d"

/-- Such a reply is no JSON text, nor a text at all, and is taken all the same. -/
theorem compile_brokenMember :
    compile (replying brokenMember) (.ofString "node")
      ⟨"src", "A.tsx", .ofString "/p", none, .diagnostics⟩ = .ok (.ok ⟨some "c", []⟩) ∧
    ∀ s, Text.Utf8.encode s ≠ brokenMember := by
  have hread : (Reply.ofBytes? brokenMember).map
      (fun reply => (reply.ok, reply.code, reply.events.isEmpty)) =
        some (true, some "c", true) := by decide +kernel
  obtain ⟨reply, hreply, hparts⟩ := Option.map_eq_some_iff.mp hread
  simp only [Prod.mk.injEq, List.isEmpty_iff] at hparts
  obtain ⟨hok, hcode, hevents⟩ := hparts
  have htext : payload ⟨"src", "A.tsx", .ofString "/p", none, .diagnostics⟩ = .ok _ :=
    payload_eq_ok_iff.mpr ⟨"/p", none, ⟨rfl, rfl⟩, rfl⟩
  refine ⟨?_, fun s hs => ?_⟩
  · rw [compile_of_payload htext, run_of_ended rfl rfl rfl,
      outcome_of_isSaidBy (Reply.ofBytes?_eq_some_iff.mp hreply), Reply.outcome, if_pos hok, hcode,
      hevents]
  · have hnone : Text.Utf8.decode? brokenMember = none := by decide +kernel
    rw [Text.Utf8.decode?_eq_some_iff.mpr hs.symm] at hnone
    cases hnone

end Processes

end MemoHints.Node
