import MemoHints.Proofs.Event.Fits

/-!
# Events that were written can be read

What is written of an event is read as that event again, and has no gaps in it
(`DiagnosticEvent.read_written`).  This is about values: members may be kept as they were written or
sorted by name, which is the form that a forgiving field is read from.

## How the proof goes

A record is written field by field, and `Field.read_append` takes one field at a time off what is
read.  What is left out is a field that has its default.  So each type needs only the values of its
fields to come back, which are records of the types before it, or details that lie deeper.
-/

namespace MemoHints

open Json RecordType

/-! ## Members that give a field its value -/

section Members

variable {α β : Type} {type : RecordType α} {name other : String} {how : Arrangement}

@[simp] theorem Json.fresh_member? {f : β → Json} {o : Option β} (h : other ≠ name) :
    Fresh name (member? other f o) := by
  cases o <;> simp [member?, h]

@[simp] theorem fresh_nonEmptyMember {f : β → Json} {xs : List β} (h : other ≠ name) :
    Fresh name (nonEmptyMember other f xs) := by
  cases xs <;> simp [nonEmptyMember, h]

theorem Json.gives_member? {parse : Read (Option β)} {assign : Option β → α → α} {f : β → Json}
    {o : Option β} (hnone : assign none type.default = type.default)
    (h : ∀ b ∈ o, parse (how.arrange (f b)) = .ok (some b)) :
    Field.Gives type name parse assign how o (member? name f o) := by
  cases o with
  | none => exact .absent hnone
  | some b => exact .present (h b rfl)

theorem gives_nonEmptyMember {parse : Read (List β)} {assign : List β → α → α} {f : β → Json}
    {xs : List β} (hnil : assign [] type.default = type.default)
    (h : parse (.arr (xs.map fun x => how.arrange (f x))) = .ok xs) :
    Field.Gives type name parse assign how xs (nonEmptyMember name f xs) := by
  cases xs with
  | nil => exact .absent hnil
  | cons x xs => exact .present (by simpa [Function.comp_def] using h)

theorem Json.readOption_obj {read : Read α} {x : α} {members : List (String × Json)}
    (h : read (how.arrange (.obj members)) = .ok x) :
    readOption read (how.arrange (.obj members)) = .ok (some x) := by
  obtain ⟨arranged, heq, -⟩ := how.exists_arrange_obj members
  rw [heq] at h ⊢
  simp [readOption, h, Except.map]

end Members

/-! ## Reading what was written -/

variable (how : Arrangement)

theorem SourcePoint.read_toJson {point : SourcePoint} (h : point.Fits) :
    recordType.read (how.arrange point.toJson) = .ok point := by
  obtain ⟨hline, hcolumn, hindex⟩ := fields
  have hjson : point.toJson = .obj (member? "line" nat point.line ++
      (member? "column" nat point.column ++ (member? "index" nat point.index ++ []))) := by
    simp [toJson]
  have hnat : ∀ {o : Option Nat}, (∀ n ∈ o, n < 2 ^ 32) →
      ∀ n ∈ o, readOption readWord (how.arrange (nat n)) = .ok (some n) := fun hfits n hn => by
    rw [how.arrange_nat, readOption_nat (hfits n hn)]
  rw [hjson, hline.read_append (gives_member? rfl (hnat h.line)) (by simp),
    hcolumn.read_append (gives_member? rfl (hnat h.column)) (by simp),
    hindex.read_append (gives_member? rfl (hnat h.index)) (by simp), how.arrange_obj_nil]
  rfl

theorem SourceRange.read_toJson {range : SourceRange} (h : range.Fits) :
    recordType.read (how.arrange range.toJson) = .ok range := by
  obtain ⟨hstart, hfinish⟩ := fields
  have hjson : range.toJson = .obj (member? "start" SourcePoint.toJson range.start ++
      (member? "end" SourcePoint.toJson range.finish ++ [])) := by
    simp [toJson]
  have hpoint : ∀ {o : Option SourcePoint}, (∀ point ∈ o, point.Fits) → ∀ point ∈ o,
      readOption SourcePoint.recordType.read (how.arrange point.toJson) = .ok (some point) :=
    fun hfits point hpoint => readOption_obj (SourcePoint.read_toJson how (hfits point hpoint))
  rw [hjson, hstart.read_append (gives_member? rfl (hpoint h.start)) (by simp),
    hfinish.read_append (gives_member? rfl (hpoint h.finish)) (by simp), how.arrange_obj_nil]
  rfl

theorem readOption_arrange_str (o : Option String) :
    ∀ s ∈ o, readOption readString (how.arrange (.str s)) = .ok (some s) := fun s _ => by
  rw [how.arrange_str]
  rfl

theorem lenient_arrange_range {o : Option SourceRange} (h : ∀ range ∈ o, range.Fits) :
    ∀ range ∈ o, (Except.ok (lenient SourceRange.recordType.read (how.arrange range.toJson)) :
      Except ReadError (Option SourceRange)) = .ok (some range) := fun range hrange => by
  rw [lenient_eq, SourceRange.read_toJson how (h range hrange)]
  rfl

theorem DetailEntry.read_toJson {entry : DetailEntry} (h : entry.Fits) :
    recordType.read (how.arrange entry.toJson) = .ok entry := by
  obtain ⟨hkind, hloc, hmessage⟩ := fields
  have hjson : entry.toJson = .obj (member? "kind" .str entry.kind ++
      (member? "loc" SourceRange.toJson entry.loc ++
        (member? "message" .str entry.message ++ []))) := by
    simp [toJson]
  rw [hjson, hkind.read_append (gives_member? rfl (readOption_arrange_str how _)) (by simp),
    hloc.read_append (gives_member? rfl (lenient_arrange_range how h.loc)) (by simp),
    hmessage.read_append (gives_member? rfl (readOption_arrange_str how _)) (by simp),
    how.arrange_obj_nil]
  rfl

theorem lenientList_arrange {α : Type} {read : Read α} {f : α → Json} {xs : List α}
    (h : ∀ x ∈ xs, read (how.arrange (f x)) = .ok x) :
    lenientList read (.arr (xs.map fun x => how.arrange (f x))) = xs := by
  rw [lenientList, lenient_eq, readList, mapM_map_eq_ok h]
  rfl

theorem EventDetail.toJson_eq (detail : EventDetail) :
    detail.toJson = .obj (member? "reason" .str detail.reason ++
      (member? "description" .str detail.description ++
        (nonEmptyMember "suggestions" id detail.suggestions ++
          (member? "loc" SourceRange.toJson detail.loc ++
            (nonEmptyMember "details" DetailEntry.toJson detail.details ++
              (member? "options" toJson detail.options ++ [])))))) := by
  obtain ⟨reason, description, suggestions, loc, details, options⟩ := detail
  cases options <;> simp [toJson, member?]

theorem EventDetail.read_toJson {detail : EventDetail} (h : detail.Fits) :
    read (how.arrange detail.toJson) = .ok detail := by
  obtain ⟨hreason, hdescription, hsuggestions, hloc, hdetails, hoptions⟩ := fields
  induction h with
  | @intro detail hsorted hranges hentries _ ih =>
    have hnested : ∀ nested ∈ detail.options,
        (Except.ok (lenient read (how.arrange nested.toJson)) :
          Except ReadError (Option EventDetail)) = .ok (some nested) := fun nested hnested => by
      rw [lenient_eq, ih nested hnested]
      rfl
    have hany : ∀ s ∈ detail.suggestions, readAny (how.arrange (id s)) = .ok s := fun s hs =>
      congrArg Except.ok (how.arrange_of_sorted (hsorted s hs))
    have hentry : ∀ entry ∈ detail.details,
        DetailEntry.recordType.read (how.arrange entry.toJson) = .ok entry := fun entry hentry =>
      DetailEntry.read_toJson how (hentries entry hentry)
    rw [read_eq, toJson_eq,
      hreason.read_append (gives_member? rfl (readOption_arrange_str how _)) (by simp),
      hdescription.read_append (gives_member? rfl (readOption_arrange_str how _)) (by simp),
      hsuggestions.read_append
        (gives_nonEmptyMember rfl (congrArg _ (lenientList_arrange how hany))) (by simp),
      hloc.read_append (gives_member? rfl (lenient_arrange_range how hranges)) (by simp),
      hdetails.read_append
        (gives_nonEmptyMember rfl (congrArg _ (lenientList_arrange how hentry))) (by simp),
      hoptions.read_append (gives_member? rfl hnested) (by simp), how.arrange_obj_nil]
    cases detail
    rfl

theorem DiagnosticEvent.read_toJson {event : DiagnosticEvent} (h : event.Fits) :
    read (how.arrange event.toJson) = .ok event := by
  obtain ⟨hkind, hfilename, hfnLoc, hfnName, hdetail⟩ := fields
  have hjson : event.toJson = .obj (member? "kind" (.str ·.name) event.kind ++
      ([("filename", ofOption .str event.filename)] ++
        (member? "fnLoc" SourceRange.toJson event.fnLoc ++
          (member? "fnName" .str event.fnName ++
            (member? "detail" EventDetail.toJson event.detail ++ []))))) := by
    simp [toJson]
  have hname : ∀ kind ∈ event.kind,
      (readOption readString (how.arrange (.str kind.name))).map (·.map EventKind.ofName) =
        .ok (some kind) := fun kind hkind => by
    rw [readOption_arrange_str how (some kind.name) _ rfl, Except.map, Option.map_some,
      h.kind kind hkind]
  have hfile : readOption readString (how.arrange (ofOption .str event.filename)) =
      .ok event.filename := by
    cases event.filename with
    | none => rw [ofOption, Option.map_none, Option.getD_none, how.arrange_null]; rfl
    | some s => exact readOption_arrange_str how (some s) s rfl
  have hrange : ∀ range ∈ event.fnLoc,
      (Except.ok (lenient SourceRange.recordType.read (how.arrange range.toJson).sorted) :
        Except ReadError (Option SourceRange)) = .ok (some range) := fun range hrange => by
    rw [how.sorted_arrange]
    exact lenient_arrange_range .byName h.fnLoc range hrange
  have hnested : ∀ detail ∈ event.detail,
      (Except.ok (lenient EventDetail.read (how.arrange detail.toJson).sorted) :
        Except ReadError (Option EventDetail)) = .ok (some detail) := fun detail hdetail => by
    have hread := EventDetail.read_toJson .byName (h.detail detail hdetail)
    rw [how.sorted_arrange]
    exact congrArg Except.ok (toOption_eq_some_iff.mpr hread)
  rw [hjson, read, hkind.read_append (gives_member? rfl hname) (by simp),
    hfilename.read_append (.present hfile) (by simp),
    hfnLoc.read_append (gives_member? rfl hrange) (by simp),
    hfnName.read_append (gives_member? rfl (readOption_arrange_str how _)) (by simp),
    hdetail.read_append (gives_member? rfl hnested) (by simp), how.arrange_obj_nil]
  rfl

/-- The two lists of a result, whichever of them comes first. -/
theorem CompileResult.read_members {v w : Json} {successful failed : List DiagnosticEvent}
    (hv : readList DiagnosticEvent.read v = .ok successful)
    (hw : readList DiagnosticEvent.read w = .ok failed) :
    read (.obj [("successfulCompilations", v), ("failedCompilations", w)]) =
        .ok ⟨successful, failed⟩ ∧
      read (.obj [("failedCompilations", w), ("successfulCompilations", v)]) =
        .ok ⟨successful, failed⟩ := by
  have hsuccessful : ∀ x, recordType.set x "successfulCompilations" v =
      .ok { x with successful } := fun x => by simp only [recordType, hv]; rfl
  have hfailed : ∀ x, recordType.set x "failedCompilations" w = .ok { x with failed } := fun x => by
    simp only [recordType, hw]; rfl
  constructor
  · rw [read, RecordType.read, readMembers_cons (by decide) List.not_mem_nil (hsuccessful _),
      readMembers_cons (by decide) (by decide) (hfailed _)]
    rfl
  · rw [read, RecordType.read, readMembers_cons (by decide) List.not_mem_nil (hfailed _),
      readMembers_cons (by decide) (by decide) (hsuccessful _)]
    rfl

theorem CompileResult.read_toJson {result : CompileResult}
    (h : ∀ event ∈ result.successful ++ result.failed, event.Fits) :
    read (how.arrange result.toJson) = .ok result := by
  have hlist : ∀ events : List DiagnosticEvent, (∀ event ∈ events, event.Fits) →
      readList DiagnosticEvent.read (how.arrange (.arr (events.map DiagnosticEvent.toJson))) =
        .ok events := by
    intro events hevents
    rw [how.arrange_arr, List.map_map]
    exact mapM_map_eq_ok fun event hevent =>
      DiagnosticEvent.read_toJson how (hevents event hevent)
  obtain ⟨hwritten, hswapped⟩ := read_members
    (hlist result.successful fun event hevent => h event (List.mem_append_left _ hevent))
    (hlist result.failed fun event hevent => h event (List.mem_append_right _ hevent))
  cases how with
  | asWritten => exact hwritten
  | byName =>
    have hnames : "successfulCompilations" ≠ "failedCompilations" := by decide
    rw [Arrangement.arrange, toJson]
    rcases sorted_pair hnames (.arr (result.successful.map DiagnosticEvent.toJson))
      (.arr (result.failed.map DiagnosticEvent.toJson)) with hsorted | hsorted
    · rw [hsorted]
      exact hwritten
    · rw [hsorted]
      exact hswapped

/-! ## Records without gaps -/

namespace Json

/-- Null or an empty list. -/
def IsVacant (v : Json) : Prop := v = .null ∨ v = .arr []

/-- No member of the record is vacant, nor one of a record in it.  What is suggested is the
compiler's own and is not looked into. -/
def Filled : Json → Prop
  | .obj members => ofMembers members
  | .arr items => ofItems items
  | _ => True
where
  ofMembers : List (String × Json) → Prop
    | [] => True
    | (name, v) :: rest => ¬ v.IsVacant ∧ (name ≠ "suggestions" → v.Filled) ∧ ofMembers rest
  ofItems : List Json → Prop
    | [] => True
    | v :: rest => v.Filled ∧ ofItems rest

theorem filled_obj {members : List (String × Json)} : Filled (.obj members) ↔
    ∀ m ∈ members, ¬ m.2.IsVacant ∧ (m.1 ≠ "suggestions" → m.2.Filled) := by
  rw [Filled]
  induction members with
  | nil => simp [Filled.ofMembers]
  | cons m rest ih => rw [Filled.ofMembers, ih, List.forall_mem_cons, and_assoc]

theorem filled_arr {items : List Json} : Filled (.arr items) ↔ ∀ v ∈ items, v.Filled := by
  rw [Filled]
  induction items with
  | nil => simp [Filled.ofItems]
  | cons v rest ih => rw [Filled.ofItems, ih, List.forall_mem_cons]

theorem filled_append {before after : List (String × Json)} : Filled (.obj (before ++ after)) ↔
    Filled (.obj before) ∧ Filled (.obj after) := by
  simp only [filled_obj, List.forall_mem_append]

theorem filled_member? {β : Type} {name : String} {f : β → Json} {o : Option β}
    (h : ∀ b ∈ o, ¬ (f b).IsVacant ∧ (f b).Filled) : Filled (.obj (member? name f o)) := by
  refine filled_obj.mpr fun m hm => ?_
  cases o with
  | none => cases hm
  | some b =>
    obtain rfl := List.mem_singleton.mp hm
    exact ⟨(h b rfl).1, fun _ => (h b rfl).2⟩

theorem not_isVacant_obj (members : List (String × Json)) : ¬ (obj members).IsVacant := nofun

theorem filled_str {o : Option String} {name : String} : Filled (.obj (member? name .str o)) :=
  filled_member? fun _ _ => ⟨nofun, trivial⟩

end Json

theorem SourcePoint.filled_toJson (point : SourcePoint) : point.toJson.Filled := by
  have hnat : ∀ (name : String) (o : Option Nat), Filled (.obj (member? name nat o)) :=
    fun _ _ => filled_member? fun _ _ => ⟨nofun, trivial⟩
  simp only [toJson, filled_append]
  exact ⟨⟨hnat _ _, hnat _ _⟩, hnat _ _⟩

theorem SourceRange.filled_toJson (range : SourceRange) : range.toJson.Filled := by
  have hpoint : ∀ (name : String) (o : Option SourcePoint),
      Filled (.obj (member? name SourcePoint.toJson o)) := fun _ _ =>
    filled_member? fun point _ => ⟨not_isVacant_obj _, point.filled_toJson⟩
  simp only [toJson, filled_append]
  exact ⟨hpoint _ _, hpoint _ _⟩

theorem SourceRange.filled_member (name : String) (o : Option SourceRange) :
    Filled (.obj (member? name toJson o)) :=
  filled_member? fun range _ => ⟨not_isVacant_obj _, range.filled_toJson⟩

theorem DetailEntry.filled_toJson (entry : DetailEntry) : entry.toJson.Filled := by
  simp only [toJson, filled_append]
  exact ⟨⟨filled_str, SourceRange.filled_member _ _⟩, filled_str⟩

theorem filled_nonEmptyMember {α : Type} {name : String} {f : α → Json} {xs : List α}
    (h : name ≠ "suggestions" → ∀ x ∈ xs, (f x).Filled) :
    Filled (.obj (nonEmptyMember name f xs)) := by
  refine filled_obj.mpr fun m hm => ?_
  cases xs with
  | nil => cases hm
  | cons x xs =>
    obtain rfl := List.mem_singleton.mp hm
    refine ⟨by simp [IsVacant], fun hname => filled_arr.mpr fun v hv => ?_⟩
    obtain ⟨y, hy, rfl⟩ := List.mem_map.mp hv
    exact h hname y hy

theorem EventDetail.filled_toJson (detail : EventDetail) : detail.toJson.Filled := by
  obtain ⟨reason, description, suggestions, loc, details, options⟩ := detail
  rw [toJson_eq]
  simp only [filled_append]
  refine ⟨filled_str, filled_str, filled_nonEmptyMember (absurd rfl ·),
    SourceRange.filled_member _ _,
    filled_nonEmptyMember fun _ entry _ => entry.filled_toJson, filled_member? ?_, trivial⟩
  rintro nested rfl
  exact ⟨by rw [toJson_eq]; exact not_isVacant_obj _, nested.filled_toJson⟩

/-- All that is written of an event but the name of its file, which is there even if it is null. -/
theorem DiagnosticEvent.filled_toJson (event : DiagnosticEvent) :
    ∃ before after, event.toJson =
        .obj (before ++ ("filename", ofOption .str event.filename) :: after) ∧
      Filled (.obj (before ++ after)) := by
  refine ⟨member? "kind" (.str ·.name) event.kind,
    member? "fnLoc" SourceRange.toJson event.fnLoc ++ (member? "fnName" .str event.fnName ++
      member? "detail" EventDetail.toJson event.detail), by simp [toJson], ?_⟩
  simp only [filled_append]
  refine ⟨filled_member? fun _ _ => ⟨nofun, trivial⟩, SourceRange.filled_member _ _, filled_str,
    filled_member? fun detail _ => ⟨?_, detail.filled_toJson⟩⟩
  rw [EventDetail.toJson_eq]
  exact not_isVacant_obj _

/-- **Writing an event loses nothing.**  Whatever was read as an event, written and read again is
the same event, in whichever order the members are kept, and so what is written is a form that
reading and writing leave alone.  In it no record has a member that is null or an empty list, but
for the name of the file.  Results made of such events can be written and read as well. -/
theorem DiagnosticEvent.read_written :
    (∀ v event, read v = .ok event →
      (∀ how : Arrangement, read (how.arrange event.toJson) = .ok event ∧
        (read (how.arrange event.toJson)).map toJson = .ok event.toJson) ∧
      ∃ before after, event.toJson =
          .obj (before ++ ("filename", ofOption .str event.filename) :: after) ∧
        Filled (.obj (before ++ after))) ∧
    ∀ result : CompileResult,
      (∀ event ∈ result.successful ++ result.failed, ∃ v, read v = .ok event) →
        ∀ how : Arrangement, CompileResult.read (how.arrange result.toJson) = .ok result := by
  constructor
  · intro v event h
    refine ⟨fun how => ?_, event.filled_toJson⟩
    have hread := read_toJson how (fits_of_read h)
    exact ⟨hread, by rw [hread]; rfl⟩
  · intro result h how
    refine CompileResult.read_toJson how fun event hevent => ?_
    obtain ⟨v, hv⟩ := h event hevent
    exact fits_of_read hv

/-- An event as the compiler may send it: the place of the function is no range, the detail is a
list of its fields, and among the suggestions stand null and an unsorted record. -/
def looseEvent : Json :=
  .obj [("kind", .str "Timing"), ("fnLoc", .str "GeneratedSource"),
    ("detail", .arr [.null, .str "d", .arr [.null, .obj [("b", .int 1), ("a", .arr [])]], .null,
      .arr [.obj [("loc", .arr [.obj [("line", .int 3)]])]],
      .obj [("reason", .str "r"), ("loc", .obj []), ("options", .bool true)]])]

def looseEventRead : DiagnosticEvent :=
  { kind := some (.other "Timing")
    detail := some
      { description := some "d"
        suggestions := [.null, .obj [("a", .arr []), ("b", .int 1)]]
        details := [{ loc := some { start := some { line := some 3 } } }]
        options := some { reason := some "r", loc := some {} } } }

/-- The loose event with a detail in its options, and a result that has it, written and read. -/
theorem looseEvent_read_written :
    DiagnosticEvent.read looseEvent = .ok looseEventRead ∧
      (∀ how : Arrangement, DiagnosticEvent.read (how.arrange looseEventRead.toJson) =
        .ok looseEventRead) ∧
      ∀ how : Arrangement,
        CompileResult.read (how.arrange (CompileResult.mk [] [looseEventRead]).toJson) =
          .ok ⟨[], [looseEventRead]⟩ := by
  refine ⟨rfl, fun how => ((DiagnosticEvent.read_written.1 looseEvent looseEventRead rfl).1 how).1,
    DiagnosticEvent.read_written.2 ⟨[], [looseEventRead]⟩ fun event hevent => ?_⟩
  obtain rfl := List.mem_singleton.mp hevent
  exact ⟨looseEvent, rfl⟩

end MemoHints
