import MemoHints.Event.Json
import MemoHints.Proofs.Json.Records
import MemoHints.Proofs.Results

/-!
# The fields of an event

Each field of an event, of its detail and of what is in that, with the way in which it is read.  The
options of a detail are read like any other field (`EventDetail.read_eq`), although the reader takes
them apart from the others.
-/

namespace MemoHints

open Json RecordType

theorem SourcePoint.fields :
    recordType.Field "line" (readOption readWord) (fun o x => { x with line := o }) ∧
    recordType.Field "column" (readOption readWord) (fun o x => { x with column := o }) ∧
    recordType.Field "index" (readOption readWord) (fun o x => { x with index := o }) := by
  refine ⟨?_, ?_, ?_⟩
  all_goals
    refine ⟨by decide, by decide, fun _ _ => rfl, fun _ _ _ => rfl, fun o x other w hne => ?_⟩
    simp only [recordType]
    split <;> simp_all [except_map_eq]

theorem SourceRange.fields :
    recordType.Field "start" (readOption SourcePoint.recordType.read)
      (fun o x => { x with start := o }) ∧
    recordType.Field "end" (readOption SourcePoint.recordType.read)
      (fun o x => { x with finish := o }) := by
  refine ⟨?_, ?_⟩
  all_goals
    refine ⟨by decide, by decide, fun _ _ => rfl, fun _ _ _ => rfl, fun o x other w hne => ?_⟩
    simp only [recordType]
    split <;> simp_all [except_map_eq]

theorem DetailEntry.fields :
    recordType.Field "kind" (readOption readString) (fun o x => { x with kind := o }) ∧
    recordType.Field "loc" (fun v => .ok (lenient SourceRange.recordType.read v))
      (fun o x => { x with loc := o }) ∧
    recordType.Field "message" (readOption readString) (fun o x => { x with message := o }) := by
  refine ⟨?_, ?_, ?_⟩
  all_goals
    refine ⟨by decide, by decide, fun _ _ => rfl, fun _ _ _ => rfl, fun o x other w hne => ?_⟩
    simp only [recordType]
    split <;> simp_all [except_map_eq]

namespace EventDetail

/-- The record of a detail, its options among its fields. -/
def wholeType : RecordType EventDetail :=
  { recordType with
    set := fun detail name v =>
      if name = "options" then .ok { detail with options := lenient read v }
      else recordType.set detail name v }

theorem fields :
    wholeType.Field "reason" (readOption readString) (fun o x => { x with reason := o }) ∧
    wholeType.Field "description" (readOption readString)
      (fun o x => { x with description := o }) ∧
    wholeType.Field "suggestions" (fun v => .ok (lenientList readAny v))
      (fun l x => { x with suggestions := l }) ∧
    wholeType.Field "loc" (fun v => .ok (lenient SourceRange.recordType.read v))
      (fun o x => { x with loc := o }) ∧
    wholeType.Field "details" (fun v => .ok (lenientList DetailEntry.recordType.read v))
      (fun l x => { x with details := l }) ∧
    wholeType.Field "options" (fun v => .ok (lenient read v))
      (fun o x => { x with options := o }) := by
  refine ⟨?_, ?_, ?_, ?_, ?_, ?_⟩
  all_goals
    refine ⟨by decide, by decide, fun _ _ => rfl, fun _ _ _ => rfl, fun o x other w hne => ?_⟩
    simp only [wholeType, recordType]
    split
    · simp_all [except_map_eq]
    · split <;> simp_all [except_map_eq]

theorem wholeType_set (o : Option EventDetail) (x : EventDetail) {name : String} (v : Json)
    (hname : name ≠ "options") :
    wholeType.set { x with options := o } name v =
      (recordType.set x name v).map ({ · with options := o }) := by
  have hset := fields.2.2.2.2.2.set_assign o x name v hname
  simpa only [wholeType, if_neg hname] using hset

/-- Once the options stand, the other members leave them alone. -/
theorem readMembers_wholeType_of_mem {seen : List String} (hseen : "options" ∈ seen)
    (o : Option EventDetail) (x : EventDetail) (members : List (String × Json)) :
    wholeType.readMembers seen { x with options := o } members =
      (recordType.readMembers seen x members).map ({ · with options := o }) := by
  have hfields : wholeType.fields = recordType.fields := rfl
  induction members generalizing seen x with
  | nil =>
    simp only [readMembers, hfields]
    split <;> rfl
  | cons m rest ih =>
    obtain ⟨k, v⟩ := m
    simp only [readMembers, hfields]
    split
    · split
      · rfl
      · next hk =>
        have hne : k ≠ "options" := fun heq => hk (heq ▸ hseen)
        rw [wholeType_set o x v hne]
        cases recordType.set x k v with
        | error e => rfl
        | ok y => exact ih (List.mem_cons_of_mem _ hseen) y
    · exact ih hseen x

theorem readMembers_wholeType {seen : List String} (hseen : "options" ∉ seen) (x : EventDetail)
    (members : List (String × Json)) :
    wholeType.readMembers seen { x with options := none } members =
      (recordType.readMembers seen x members).map
        ({ · with options := read.readMember members }) := by
  have hfields : wholeType.fields = recordType.fields := rfl
  induction members generalizing seen x with
  | nil =>
    simp only [readMembers, hfields]
    split <;> rfl
  | cons m rest ih =>
    obtain ⟨k, v⟩ := m
    by_cases hk : k = "options"
    · subst hk
      have hknown : recordType.fields.any (·.1 = "options") = true := by decide
      simp only [readMembers, hfields, hknown, hseen, read.readMember, if_true, if_false]
      exact readMembers_wholeType_of_mem List.mem_cons_self _ x rest
    · simp only [readMembers, hfields, wholeType_set none x v hk, read.readMember, hk, if_false]
      split
      · split
        · rfl
        · cases recordType.set x k v with
          | error e => rfl
          | ok y => exact ih (by simp [hseen, Ne.symm hk]) y
      · exact ih hseen x

theorem readItems_wholeType {fields : List (String × Need)}
    (hfields : ∀ f ∈ fields, f.1 ≠ "options") (index : Nat) (x : EventDetail)
    (items : List Json) :
    wholeType.readItems index { x with options := none } (fields ++ [("options", .optional)])
        items =
      (recordType.readItems index x (fields ++ [("options", .optional)]) items).map
        ({ · with options := read.readItem fields.length items }) := by
  induction fields generalizing index x items with
  | nil => rcases items with _ | ⟨v, _ | ⟨w, rest⟩⟩ <;> rfl
  | cons field fields ih =>
    obtain ⟨hfield, hfields⟩ := List.forall_mem_cons.mp hfields
    cases items with
    | nil =>
      simp only [List.cons_append, readItems, read.readItem]
      split
      · have hnil := ih hfields (index + 1) x []
        simpa only [read.readItem] using hnil
      · rfl
    | cons v rest =>
      simp only [List.cons_append, readItems, wholeType_set none x v hfield]
      cases recordType.set x field.1 v with
      | error e => rfl
      | ok y => exact ih hfields (index + 1) y rest

/-- The options are read like any other field. -/
theorem read_eq (v : Json) : read v = wholeType.read v := by
  cases v with
  | obj members => exact (readMembers_wholeType List.not_mem_nil {} members).symm
  | arr items =>
    have hothers : ∀ f ∈ recordType.fields.take optionsIndex, f.1 ≠ "options" := by decide
    exact (readItems_wholeType hothers 0 {} items).symm
  | null | bool _ | int _ | float _ | str _ => rfl

end EventDetail

theorem DiagnosticEvent.fields :
    recordType.Field "kind" (fun v => (readOption readString v).map (·.map EventKind.ofName))
      (fun o x => { x with kind := o }) ∧
    recordType.Field "filename" (readOption readString) (fun o x => { x with filename := o }) ∧
    recordType.Field "fnLoc" (fun v => .ok (lenient SourceRange.recordType.read v.sorted))
      (fun o x => { x with fnLoc := o }) ∧
    recordType.Field "fnName" (readOption readString) (fun o x => { x with fnName := o }) ∧
    recordType.Field "detail" (fun v => .ok (lenient EventDetail.read v.sorted))
      (fun o x => { x with detail := o }) := by
  refine ⟨⟨by decide, by decide, fun x v => ?_, fun _ _ _ => rfl, ?_⟩, ?_, ?_, ?_, ?_⟩
  · simp only [recordType]
    cases readOption readString v <;> rfl
  · intro o x other w hne
    simp only [recordType]
    split <;> simp_all [except_map_eq]
  all_goals
    refine ⟨by decide, by decide, fun _ _ => rfl, fun _ _ _ => rfl, fun o x other w hne => ?_⟩
    simp only [recordType]
    split <;> simp_all [except_map_eq]

end MemoHints
