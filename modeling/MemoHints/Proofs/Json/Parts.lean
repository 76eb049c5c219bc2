import MemoHints.Json.Record
import MemoHints.Proofs.Entries

/-!
# The parts of a record

A record is read from a value in two steps: the value gives parts, each with the name of a field
(`RecordType.Takes`), and the parts are put into the record of defaults (`RecordType.put`).  The
first step is about the form of the value alone, and says which values have one: a name that is
given twice, a part that is missing, or an item too many leaves none (`read_eq_ok_iff`).

What a field holds at the end is what its own part says (`Component.supplies_of_put`), so that a
record is known when the parts are, whatever their order is.
-/

namespace MemoHints.Json.RecordType

variable {α β : Type} (type : RecordType α)

def names : List String := type.fields.map (·.1)

/-- The members that the record has fields for. -/
def known (members : List (String × Json)) : List (String × Json) :=
  members.filter fun m => type.fields.any (·.1 = m.1)

/-- The parts that a value gives to a record: the members of an object that it has fields for, each
of them once, or the items of a list in the order of the fields.  Only fields that can be left out
are. -/
inductive Takes : Json → List (String × Json) → Prop where
  | members {ms : List (String × Json)} (once : ((type.known ms).map (·.1)).Nodup)
    (present : ∀ field ∈ type.fields, field.2 = .always → field.1 ∈ (type.known ms).map (·.1)) :
    Takes (.obj ms) (type.known ms)
  | items {vs : List Json} (length_le : vs.length ≤ type.fields.length)
    (present : ∀ field ∈ type.fields.drop vs.length, field.2 = .optional) :
    Takes (.arr vs) (type.names.zip vs)

/-- Puts parts into a record, one after the other. -/
def put (x : α) (parts : List (String × Json)) : Except ReadError α :=
  parts.foldlM (fun x part => type.set x part.1 part.2) x

variable {type} {x y : α} {parts : List (String × Json)}

theorem known_cons_of_any {m : String × Json} (h : type.fields.any (·.1 = m.1) = true)
    (rest : List (String × Json)) : type.known (m :: rest) = m :: type.known rest :=
  List.filter_cons_of_pos h

theorem known_cons_of_not_any {m : String × Json} (h : ¬ type.fields.any (·.1 = m.1) = true)
    (rest : List (String × Json)) : type.known (m :: rest) = type.known rest :=
  List.filter_cons_of_neg h

theorem Takes.mem_names {v : Json} (h : type.Takes v parts) {part : String × Json}
    (hpart : part ∈ parts) : part.1 ∈ type.names := by
  cases h with
  | members once present =>
    obtain ⟨field, hfield, hname⟩ := List.any_eq_true.mp (List.mem_filter.mp hpart).2
    exact List.mem_map.mpr ⟨field, hfield, of_decide_eq_true hname⟩
  | items => exact (List.of_mem_zip hpart).1

theorem Takes.nodup {v : Json} (h : type.Takes v parts) (hnames : type.names.Nodup) :
    (parts.map (·.1)).Nodup := by
  cases h with
  | members once present => exact once
  | items =>
    rw [List.zip_eq_zip_take_min, List.map_fst_zip (by simp)]
    exact hnames.sublist (List.take_sublist _ _)

/-- A field that must be there is among the parts. -/
theorem Takes.mem_of_always {v : Json} (h : type.Takes v parts) {field : String × Need}
    (hfield : field ∈ type.fields) (halways : field.2 = .always) :
    field.1 ∈ parts.map (·.1) := by
  cases h with
  | members once present => exact present field hfield halways
  | @items vs length_le present =>
    rw [List.zip_eq_zip_take_min, List.map_fst_zip (by simp), names, List.length_map,
      Nat.min_eq_right length_le, ← List.map_take]
    rw [← List.take_append_drop vs.length type.fields] at hfield
    rcases List.mem_append.mp hfield with htake | hdrop
    · exact List.mem_map_of_mem htake
    · cases halways.symm.trans (present field hdrop)

@[simp] theorem put_nil (x : α) : type.put x [] = .ok x := rfl

theorem put_cons_eq_ok_iff {name : String} {v : Json} :
    type.put x ((name, v) :: parts) = .ok y ↔
      ∃ z, type.set x name v = .ok z ∧ type.put z parts = .ok y := by
  simp only [put, List.foldlM_cons]
  cases type.set x name v with
  | error e => exact ⟨nofun, nofun⟩
  | ok z => exact ⟨fun h => ⟨z, rfl, h⟩, fun ⟨_, rfl, h⟩ => h⟩

/-- What holds of a record and is kept by each part holds of the record with the parts. -/
theorem put_induction {P : α → Prop}
    (hset : ∀ part ∈ parts, ∀ x y, P x → type.set x part.1 part.2 = .ok y → P y) (hx : P x)
    (h : type.put x parts = .ok y) : P y := by
  induction parts generalizing x with
  | nil => exact Except.ok.inj h ▸ hx
  | cons part parts ih =>
    obtain ⟨hpart, hparts⟩ := List.forall_mem_cons.mp hset
    obtain ⟨z, hz, h⟩ := put_cons_eq_ok_iff.mp h
    exact ih hparts (hpart x z hx hz) h

theorem readMembers_eq_ok_iff {seen : List String} {ms : List (String × Json)} :
    type.readMembers seen x ms = .ok y ↔
      ((type.known ms).map (·.1)).Nodup ∧ (∀ name ∈ (type.known ms).map (·.1), name ∉ seen) ∧
      (∀ field ∈ type.fields, field.2 = .always →
        field.1 ∈ seen ∨ field.1 ∈ (type.known ms).map (·.1)) ∧
      type.put x (type.known ms) = .ok y := by
  induction ms generalizing seen x with
  | nil =>
    rw [readMembers]
    split
    next field hsome =>
      have hmissing : field.2 = .always ∧ field.1 ∉ seen := by simpa using List.find?_some hsome
      refine ⟨nofun, fun ⟨_, _, present, _⟩ => ?_⟩
      have hseen := present field (List.mem_of_find?_eq_some hsome) hmissing.1
      exact absurd (hseen.resolve_right List.not_mem_nil) hmissing.2
    next hnone =>
      refine ⟨fun h => ⟨.nil, nofun, fun field hfield halways => .inl ?_, h⟩, fun h => h.2.2.2⟩
      have hpresent := List.find?_eq_none.mp hnone field hfield
      simpa [halways] using hpresent
  | cons m rest ih =>
    obtain ⟨k, v⟩ := m
    rw [readMembers]
    split
    next hknown =>
      rw [known_cons_of_any hknown, put_cons_eq_ok_iff]
      split
      next hseen =>
        exact ⟨nofun, fun ⟨_, hfresh, _⟩ => absurd hseen (hfresh k List.mem_cons_self)⟩
      next hseen =>
        cases hset : type.set x k v with
        | error e => exact ⟨nofun, fun ⟨_, _, _, _, h, _⟩ => nomatch h⟩
        | ok z =>
          refine ih.trans ?_
          -- what is seen from here on has the name of this part in addition
          simp only [List.map_cons, List.nodup_cons, List.mem_cons, forall_eq_or_imp]
          grind
    next hunknown => rw [known_cons_of_not_any hunknown, ih]

theorem readItems_eq_ok_iff {fields : List (String × Need)} {vs : List Json} {index : Nat} :
    type.readItems index x fields vs = .ok y ↔
      vs.length ≤ fields.length ∧ (∀ field ∈ fields.drop vs.length, field.2 = .optional) ∧
      type.put x ((fields.map (·.1)).zip vs) = .ok y := by
  induction fields generalizing index x vs with
  | nil => cases vs <;> simp [readItems]
  | cons field fields ih =>
    cases vs with
    | nil =>
      rw [readItems]
      split
      next hneed => simp [ih, hneed]
      next hneed => simp [hneed]
    | cons v rest =>
      rw [readItems, List.map_cons, List.zip_cons_cons, put_cons_eq_ok_iff]
      cases hset : type.set x field.1 v with
      | error e => exact ⟨nofun, fun ⟨_, _, _, h, _⟩ => nomatch h⟩
      | ok z =>
        refine ih.trans ?_
        simp

/-- A record is read from the parts that the value gives. -/
theorem read_eq_ok_iff {v : Json} :
    type.read v = .ok x ↔ ∃ parts, type.Takes v parts ∧ type.put type.default parts = .ok x := by
  constructor
  · intro h
    cases v with
    | obj ms =>
      obtain ⟨once, -, present, hput⟩ := readMembers_eq_ok_iff.mp h
      exact ⟨_, .members once fun field hfield halways =>
        (present field hfield halways).resolve_left List.not_mem_nil, hput⟩
    | arr vs =>
      obtain ⟨hlength, present, hput⟩ := readItems_eq_ok_iff.mp h
      exact ⟨_, .items hlength present, hput⟩
    | null | bool _ | int _ | float _ | str _ => cases h
  · rintro ⟨parts, htakes, hput⟩
    cases htakes with
    | members once present =>
      exact readMembers_eq_ok_iff.mpr ⟨once, fun _ _ => List.not_mem_nil,
        fun field hfield halways => .inr (present field hfield halways), hput⟩
    | items hlength present => exact readItems_eq_ok_iff.mpr ⟨hlength, present, hput⟩

/-- What is found for a field gives it a value; where nothing is, it has the value it had. -/
def Supplies (parse : Read β) (before : β) : Option Json → β → Prop
  | some v, b => parse v = .ok b
  | none, b => b = before

theorem Supplies.unique {parse : Read β} {before b b' : β} {found : Option Json}
    (h : Supplies parse before found b) (h' : Supplies parse before found b') : b = b' := by
  cases found with
  | none => exact Eq.trans h (Eq.symm h')
  | some v => exact Except.ok.inj (Eq.trans (Eq.symm h) h')

/-- A component of a record: the field that sets it, and how the value of the field is read. -/
structure Component (type : RecordType α) (name : String) (parse : Read β) (get : α → β) :
    Prop where
  parse_of_set : ∀ {x y : α} {v : Json}, type.set x name v = .ok y → parse v = .ok (get y)
  exists_set : ∀ (x : α) {v : Json} {b : β}, parse v = .ok b → ∃ y, type.set x name v = .ok y
  get_of_set : ∀ {x y : α} {other : String} {v : Json}, other ≠ name →
    type.set x other v = .ok y → get y = get x

theorem Component.of_assign {name : String} {parse : Read β} {get : α → β} (assign : β → α → α)
    (hset : ∀ x v, type.set x name v = (parse v).map (assign · x))
    (hget : ∀ b x, get (assign b x) = b)
    (hother : ∀ {x y : α} {other : String} {v : Json}, other ≠ name →
      type.set x other v = .ok y → get y = get x) : type.Component name parse get where
  parse_of_set {x y v} h := by
    rw [hset] at h
    cases hv : parse v with
    | error e =>
      rw [hv] at h
      cases h
    | ok b =>
      rw [hv] at h
      rw [← Except.ok.inj h, hget]
  exists_set x v b hv := ⟨_, by rw [hset, hv, Except.map]⟩
  get_of_set := hother

theorem Component.supplies_of_put {name : String} {parse : Read β} {get : α → β}
    (h : type.Component name parse get) (hnodup : (parts.map (·.1)).Nodup)
    (hput : type.put x parts = .ok y) : Supplies parse (get x) (parts.lookup name) (get y) := by
  induction parts generalizing x with
  | nil =>
    cases hput
    rfl
  | cons part parts ih =>
    obtain ⟨k, v⟩ := part
    obtain ⟨hk, hnodup⟩ := List.nodup_cons.mp hnodup
    obtain ⟨z, hset, hput⟩ := put_cons_eq_ok_iff.mp hput
    have hrest := ih hnodup hput
    by_cases hname : k = name
    · subst hname
      rw [lookup_eq_none_iff_not_mem.mpr hk] at hrest
      have hget : get y = get z := hrest
      rw [List.lookup_cons_self, Supplies, hget]
      exact h.parse_of_set hset
    · rw [h.get_of_set hname hset] at hrest
      rwa [lookup_cons_of_ne v (Ne.symm hname)]

/-- Parts that can be read can be put. -/
theorem exists_put (h : ∀ part ∈ parts, ∀ x, ∃ y, type.set x part.1 part.2 = .ok y) (x : α) :
    ∃ y, type.put x parts = .ok y := by
  induction parts generalizing x with
  | nil => exact ⟨x, rfl⟩
  | cons part parts ih =>
    obtain ⟨hpart, hparts⟩ := List.forall_mem_cons.mp h
    obtain ⟨z, hz⟩ := hpart x
    obtain ⟨y, hy⟩ := ih hparts z
    exact ⟨y, put_cons_eq_ok_iff.mpr ⟨z, hz, hy⟩⟩

end MemoHints.Json.RecordType
