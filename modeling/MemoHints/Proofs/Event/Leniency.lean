import MemoHints.Proofs.Event.Fields

/-!
# Malformed parts lose only themselves

The compiler's output is loose in some places.  Whatever stands in one of these, the record around
it is read as if nothing stood there, and then has in this field what could be read
(`DiagnosticEvent.loose_parts_stay_alone`).  Records may be objects or lists of their fields.

## How the proof goes

For one record this is `Field.read_fill`.  Within the options of a detail it is an induction on the
way down: a detail depends on its options through what is read of them and through nothing else.
-/

namespace MemoHints

open Json RecordType

namespace EventDetail

/-- The fields of a detail that take any value. -/
inductive Loose where
  | suggestions
  | loc
  | details
  | options

namespace Loose

def name : Loose → String
  | .suggestions => "suggestions"
  | .loc => "loc"
  | .details => "details"
  | .options => "options"

/-- The detail with what can be read of a value: nothing, or the empty list, if it is not of the
type of the field. -/
def put (v : Json) : Loose → EventDetail → EventDetail
  | .suggestions, detail => { detail with suggestions := ((readList readAny v).toOption).getD [] }
  | .loc, detail => { detail with loc := (SourceRange.recordType.read v).toOption }
  | .details, detail =>
    { detail with details := ((readList DetailEntry.recordType.read v).toOption).getD [] }
  | .options, detail => { detail with options := (read v).toOption }

theorem read_fill (field : Loose) (how : Arrangement) {slot : Slot}
    (hslot : slot.IsFor recordType.fields field.name) (v : Json) :
    read (how.arrange (slot.fill v)) =
      (read (how.arrange slot.clear)).map (field.put (how.arrange v)) := by
  obtain ⟨-, -, hsuggestions, hloc, hdetails, hoptions⟩ := fields
  rw [read_eq, read_eq]
  cases field with
  | suggestions => exact hsuggestions.read_fill how hslot v
  | loc => exact hloc.read_fill how hslot v
  | details => exact hdetails.read_fill how hslot v
  | options => exact hoptions.read_fill how hslot v

/-- Of two values in one place, each is put into what is read with the other. -/
theorem read_fill_fill (field : Loose) (how : Arrangement) {slot : Slot}
    (hslot : slot.IsFor recordType.fields field.name) {v w : Json} {f : EventDetail → EventDetail}
    (hf : ∀ x, f (field.put (how.arrange w) x) = field.put (how.arrange v) x) :
    read (how.arrange (slot.fill v)) = (read (how.arrange (slot.fill w))).map f := by
  rw [field.read_fill how hslot v, field.read_fill how hslot w]
  cases read (how.arrange slot.clear) with
  | error e => rfl
  | ok x => exact congrArg Except.ok (hf x).symm

end Loose

/-- A change to the detail so many options deep. -/
def within : Nat → (EventDetail → EventDetail) → EventDetail → EventDetail
  | 0, f, detail => f detail
  | depth + 1, f, detail => { detail with options := detail.options.map (within depth f) }

/-- A value within places that stand in each other. -/
def plug : List Slot → Json → Json
  | [], v => v
  | slot :: chain, v => slot.fill (plug chain v)

/-- What is changed in the options of a detail is changed there and nowhere else. -/
theorem read_plug (how : Arrangement) {chain : List Slot}
    (hchain : ∀ slot ∈ chain, slot.IsFor recordType.fields "options") {v w : Json}
    {f : EventDetail → EventDetail} (h : read (how.arrange v) = (read (how.arrange w)).map f) :
    read (how.arrange (plug chain v)) =
      (read (how.arrange (plug chain w))).map (within chain.length f) := by
  induction chain with
  | nil => exact h
  | cons slot chain ih =>
    obtain ⟨hslot, hchain⟩ := List.forall_mem_cons.mp hchain
    refine Loose.options.read_fill_fill how hslot fun x => ?_
    simp only [Loose.put, List.length_cons, within, ih hchain, toOption_map]

/-- What stands as the place of one entry changes nothing but the place of that entry. -/
theorem read_entry (how : Arrangement) {holder entry : Slot}
    (hholder : holder.IsFor recordType.fields "details")
    (hentry : entry.IsFor DetailEntry.recordType.fields "loc") (front back : List Json) (v : Json) :
    read (how.arrange (holder.fill (.arr (front ++ entry.fill v :: back)))) =
      (read (how.arrange (holder.fill (.arr (front ++ entry.clear :: back))))).map fun detail =>
        { detail with details := detail.details.modify front.length fun e =>
            { e with loc := (SourceRange.recordType.read (how.arrange v)).toOption } } := by
  refine Loose.details.read_fill_fill how hholder fun x => ?_
  have hloc := DetailEntry.fields.2.1.read_fill how hentry v
  have hlist := mapM_modify hloc (front.map how.arrange) (back.map how.arrange)
  simp only [Loose.put, readList, how.arrange_arr, List.map_append, List.map_cons, hlist,
    toOption_map, List.length_map]
  cases (((front.map how.arrange) ++ how.arrange entry.clear :: back.map how.arrange).mapM
    DetailEntry.recordType.read).toOption with
  | none => simp
  | some entries => rfl

end EventDetail

namespace DiagnosticEvent

/-- The fields of an event that take any value. -/
inductive Loose where
  | fnLoc
  | detail

namespace Loose

def name : Loose → String
  | .fnLoc => "fnLoc"
  | .detail => "detail"

/-- The event with what can be read of a value: nothing if it is not of the type of the field. -/
def put (v : Json) : Loose → DiagnosticEvent → DiagnosticEvent
  | .fnLoc, event => { event with fnLoc := (SourceRange.recordType.read v.sorted).toOption }
  | .detail, event => { event with detail := (EventDetail.read v.sorted).toOption }

theorem read_fill (field : Loose) {slot : Slot} (hslot : slot.IsFor recordType.fields field.name)
    (v : Json) : read (slot.fill v) = (read slot.clear).map (field.put v) := by
  obtain ⟨-, -, hfnLoc, -, hdetail⟩ := fields
  cases field with
  | fnLoc => exact hfnLoc.read_fill .asWritten hslot v
  | detail => exact hdetail.read_fill .asWritten hslot v

end Loose

/-- A change to the detail of an event, so many options deep. -/
def inDetail (depth : Nat) (f : EventDetail → EventDetail) (event : DiagnosticEvent) :
    DiagnosticEvent :=
  { event with detail := event.detail.map (EventDetail.within depth f) }

/-- What is changed in the options of the detail is changed there and nowhere else. -/
theorem read_fill_plug {outer : Slot} (houter : outer.IsFor recordType.fields "detail")
    {chain : List Slot}
    (hchain : ∀ slot ∈ chain, slot.IsFor EventDetail.recordType.fields "options")
    {v w : Json} {f : EventDetail → EventDetail}
    (h : EventDetail.read v.sorted = (EventDetail.read w.sorted).map f) :
    read (outer.fill (EventDetail.plug chain v)) =
      (read (outer.fill (EventDetail.plug chain w))).map (inDetail chain.length f) := by
  rw [Loose.detail.read_fill houter, Loose.detail.read_fill houter]
  have hplug := EventDetail.read_plug .byName hchain h
  simp only [Arrangement.arrange] at hplug
  cases read outer.clear with
  | error e => rfl
  | ok event =>
    refine congrArg Except.ok ?_
    simp only [Loose.put, inDetail, hplug, toOption_map]

end DiagnosticEvent

/-- **A malformed part of an event loses only itself.**  With any value as the place of the function
or as its detail, an event can be read exactly when it can be read without, fails for the same
reason, and differs in that field alone.  The same holds of the loose fields of the detail, of those
of its options at any depth, and of the place of any entry among their details. -/
theorem DiagnosticEvent.loose_parts_stay_alone (v : Json) :
    (∀ (field : Loose) (slot : Slot), slot.IsFor recordType.fields field.name →
      read (slot.fill v) = (read slot.clear).map (field.put v)) ∧
    ∀ outer : Slot, outer.IsFor recordType.fields "detail" →
    ∀ chain : List Slot, (∀ slot ∈ chain, slot.IsFor EventDetail.recordType.fields "options") →
      (∀ (field : EventDetail.Loose) (slot : Slot),
        slot.IsFor EventDetail.recordType.fields field.name →
        read (outer.fill (EventDetail.plug chain (slot.fill v))) =
          (read (outer.fill (EventDetail.plug chain slot.clear))).map
            (inDetail chain.length (field.put v.sorted))) ∧
      ∀ holder entry : Slot, holder.IsFor EventDetail.recordType.fields "details" →
        entry.IsFor DetailEntry.recordType.fields "loc" → ∀ front back : List Json,
        read (outer.fill (EventDetail.plug chain
            (holder.fill (.arr (front ++ entry.fill v :: back))))) =
          (read (outer.fill (EventDetail.plug chain
            (holder.fill (.arr (front ++ entry.clear :: back)))))).map
            (inDetail chain.length fun detail =>
              { detail with details := detail.details.modify front.length fun e =>
                  { e with loc := (SourceRange.recordType.read v.sorted).toOption } }) := by
  refine ⟨fun field slot hslot => field.read_fill hslot v, fun outer houter chain hchain => ?_⟩
  constructor
  · intro field slot hslot
    exact read_fill_plug houter hchain (field.read_fill .byName hslot v)
  · intro holder entry hholder hentry front back
    exact read_fill_plug houter hchain
      (EventDetail.read_entry .byName hholder hentry front back v)

/-- A marker in place of a range: as the place of the function, as the place of a failure one option
deep in a detail that is a list of its fields, and as the place of the second entry there. -/
theorem DiagnosticEvent.marker_stays_alone :
    let marker : Json := .str "GeneratedSource"
    let function : Slot := .member [("kind", .str "CompileError")] "fnLoc" []
    let outer : Slot := .member [] "detail" [("fnName", .str "List")]
    let chain : List Slot := [.item [.str "r", .null, .null, .null, .null] []]
    let inner : Slot := .member [] "loc" [("reason", .str "Ref"), ("details", .bool true)]
    let holder : Slot := .item [.str "Ref", .null, .null, .null] []
    let entry : Slot := .member [("message", .str "m")] "loc" []
    read (function.fill marker) = .ok { kind := some .compileError } ∧
      read (outer.fill (EventDetail.plug chain (inner.fill marker))) =
        .ok { fnName := some "List"
              detail := some { reason := some "r", options := some { reason := some "Ref" } } } ∧
      read (outer.fill (EventDetail.plug chain (holder.fill (.arr [.arr [], entry.fill marker])))) =
        .ok { fnName := some "List"
              detail := some
                { reason := some "r"
                  options := some
                    { reason := some "Ref", details := [{}, { message := some "m" }] } } } := by
  intro marker function outer chain inner holder entry
  have houter : outer.IsFor recordType.fields "detail" := ⟨rfl, by simp, by simp⟩
  have hchain : ∀ slot ∈ chain, slot.IsFor EventDetail.recordType.fields "options" := by
    simp [chain, Slot.IsFor, EventDetail.recordType]
  obtain ⟨hfunction, hdetail⟩ := loose_parts_stay_alone marker
  obtain ⟨hinner, hentry⟩ := hdetail outer houter chain hchain
  refine ⟨?_, ?_, ?_⟩
  · exact hfunction .fnLoc function ⟨rfl, by simp [Loose.name], by simp⟩
  · exact hinner .loc inner ⟨rfl, by simp, by simp [EventDetail.Loose.name]⟩
  · exact hentry holder entry rfl ⟨rfl, by simp, by simp⟩ [.arr []] []

end MemoHints
