import Mathlib.Data.List.Find
import Mathlib.Data.List.Nodup
import MemoHints.Proofs.Json.Parts
import MemoHints.Proofs.Json.Sorted

/-!
# What one field does to a record

A record type reads its fields one after the other.  Here the fields are told apart.  What is put
into a field has nothing to do with the others (`Field`), so a member that can be read puts its
value into the record without that member, wherever it stands and however the object is arranged
(`Field.read_obj`, `Field.read_append`).  A field that takes every value does the same at its place
in a list (`Field.read_fill`).

Equations between readings are equations of errors too: what stands in such a field can neither make
a record unreadable nor change what is wrong with it.
-/

namespace MemoHints.Json

@[simp] theorem lenient_eq {α : Type} (read : Read α) (v : Json) :
    lenient read v = (read v).toOption := rfl

namespace RecordType

variable {α β : Type} {type : RecordType α} {name : String} {v : Json}

/-- What holds of the defaults and is kept by every field holds of all that is read.  Fields take
parts of the value. -/
theorem read_induction {P : α → Prop} (hdefault : P type.default)
    (hset : ∀ x field w y, Part w v → P x → type.set x field w = .ok y → P y)
    {x : α} (h : type.read v = .ok x) : P x := by
  obtain ⟨parts, htakes, hput⟩ := read_eq_ok_iff.mp h
  refine put_induction (fun part hpart z y hz hset' => hset z _ _ y ?_ hz hset') hdefault hput
  cases htakes with
  | members => exact .member (List.mem_filter.mp hpart).1
  | items => exact .item (List.of_mem_zip hpart).2

/-- A member of a field that was not met before gives the field its value. -/
theorem readMembers_cons {seen : List String} {x y : α}
    (hknown : type.fields.any (·.1 = name) = true) (hseen : name ∉ seen)
    (hset : type.set x name v = .ok y) (rest : List (String × Json)) :
    type.readMembers seen x ((name, v) :: rest) = type.readMembers (name :: seen) y rest := by
  simp only [readMembers, hknown, hseen, hset, if_true, if_false]
  rfl

/-- A record that can do without each of its fields, and whose fields take every value, is read from
every object that gives no name twice. -/
theorem exists_read_obj (hset : ∀ x name v, ∃ y, type.set x name v = .ok y)
    (hneed : ∀ field ∈ type.fields, field.2 ≠ .always) {members : List (String × Json)}
    (hmembers : Ascending members) : ∃ x, type.read (.obj members) = .ok x := by
  have hnodup : (members.map (·.1)).Nodup :=
    List.pairwise_map.mpr (hmembers.imp fun hlt => String.ne_of_lt hlt)
  obtain ⟨x, hput⟩ : ∃ x, type.put type.default (type.known members) = .ok x :=
    exists_put (fun part _ x => hset x _ _) type.default
  exact ⟨x, read_eq_ok_iff.mpr ⟨_, .members (hnodup.sublist (List.filter_sublist.map _))
    fun field hfield halways => absurd halways (hneed field hfield), hput⟩⟩

/-- A field of a record type: how its value is read, and where it is put.  Putting it there has
nothing to do with the other fields. -/
structure Field (type : RecordType α) (name : String) (parse : Read β) (assign : β → α → α) :
    Prop where
  known : (name, Need.optional) ∈ type.fields
  distinct : (type.fields.map (·.1)).Nodup
  set_eq : ∀ x v, type.set x name v = (parse v).map (assign · x)
  assign_assign : ∀ b b' x, assign b (assign b' x) = assign b x
  set_assign : ∀ b x other w, other ≠ name →
    type.set (assign b x) other w = (type.set x other w).map (assign b)

namespace Field

variable {parse : Read β} {assign : β → α → α} {b : β}

theorem any_fields (h : type.Field name parse assign) :
    type.fields.any (·.1 = name) = true :=
  List.any_eq_true.mpr ⟨_, h.known, by simp⟩

/-- A record can do without the field. -/
theorem need_eq (h : type.Field name parse assign) {field : String × Need}
    (hfield : field ∈ type.fields) (hname : field.1 = name) : field = (name, .optional) :=
  List.inj_on_of_nodup_map h.distinct hfield h.known hname

/-- What is put into the field stays outside the reading of other members. -/
theorem readMembers_assign (h : type.Field name parse assign) (b : β)
    {members : List (String × Json)} (hfresh : Fresh name members) {seen seen' : List String}
    (hseen : ∀ other, other ≠ name → (other ∈ seen ↔ other ∈ seen')) (x : α) :
    type.readMembers seen (assign b x) members =
      (type.readMembers seen' x members).map (assign b) := by
  induction members generalizing seen seen' x with
  | nil =>
    have hfind : (type.fields.find? fun field => field.2 = .always ∧ field.1 ∉ seen) =
        type.fields.find? fun field => field.2 = .always ∧ field.1 ∉ seen' := by
      refine List.find?_congr fun field hfield => ?_
      by_cases hname : field.1 = name
      · simp [h.need_eq hfield hname]
      · simp [hseen _ hname]
    simp only [readMembers, hfind]
    split <;> rfl
  | cons m rest ih =>
    obtain ⟨k, w⟩ := m
    obtain ⟨hk, hrest⟩ := fresh_cons.mp hfresh
    simp only [readMembers, hseen k hk, h.set_assign b x k w hk]
    split
    · split
      · rfl
      · cases type.set x k w with
        | error e => rfl
        | ok y =>
          refine ih hrest (fun other hother => ?_) y
          simp [hseen other hother]
    · exact ih hrest hseen x

/-- A member that can be read puts its value into what the other members make. -/
theorem read_obj (h : type.Field name parse assign) (hv : parse v = .ok b)
    {before after : List (String × Json)} (hbefore : Fresh name before)
    (hafter : Fresh name after) :
    type.read (.obj (before ++ (name, v) :: after)) =
      (type.read (.obj (before ++ after))).map (assign b) := by
  have hmembers : ∀ seen x, name ∉ seen →
      type.readMembers seen x (before ++ (name, v) :: after) =
        (type.readMembers seen x (before ++ after)).map (assign b) := by
    induction before with
    | nil =>
      intro seen x hseen
      have hset : type.set x name v = .ok (assign b x) := by rw [h.set_eq, hv, Except.map]
      rw [List.nil_append, List.nil_append, readMembers_cons h.any_fields hseen hset]
      refine h.readMembers_assign b hafter (fun other hother => ?_) x
      simp [hother]
    | cons m rest ih =>
      intro seen x hseen
      obtain ⟨k, w⟩ := m
      obtain ⟨hk, hrest⟩ := fresh_cons.mp hbefore
      simp only [List.cons_append, readMembers]
      split
      · split
        · rfl
        · cases type.set x k w with
          | error e => rfl
          | ok y => exact ih hrest (k :: seen) y (by simp [hseen, Ne.symm hk])
      · exact ih hrest seen x hseen
  exact hmembers [] type.default List.not_mem_nil

/-- Without a member of its name the field has its default. -/
theorem read_of_fresh (h : type.Field name parse assign) (hb : assign b type.default = type.default)
    {members : List (String × Json)} (hfresh : Fresh name members) :
    (type.read (.obj members)).map (assign b) = type.read (.obj members) := by
  have hseen : ∀ other, other ≠ name → (other ∈ ([] : List String) ↔ other ∈ []) :=
    fun _ _ => Iff.rfl
  have hmembers := h.readMembers_assign b hfresh hseen type.default
  rw [hb] at hmembers
  exact hmembers.symm

/-- A record that is read from ascending members has in the field what its member holds. -/
theorem exists_assign_of_lookup (h : type.Field name parse assign)
    {members : List (String × Json)} (hmembers : Ascending members)
    (hlookup : members.lookup name = some v) (hv : parse v = .ok b) {x : α}
    (hx : type.read (.obj members) = .ok x) : ∃ y, x = assign b y := by
  obtain ⟨front, back, rfl, hfront, hback⟩ := hmembers.exists_split hlookup
  rw [h.read_obj hv hfront hback] at hx
  cases hrest : type.read (.obj (front ++ back)) with
  | error e =>
    rw [hrest] at hx
    cases hx
  | ok y =>
    rw [hrest] at hx
    exact ⟨y, (Except.ok.inj hx).symm⟩

/-- A record that is read without a member of its name has the default in the field. -/
theorem eq_assign_of_fresh (h : type.Field name parse assign)
    (hb : assign b type.default = type.default) {members : List (String × Json)}
    (hfresh : Fresh name members) {x : α} (hx : type.read (.obj members) = .ok x) :
    x = assign b x := by
  have hsame := h.read_of_fresh hb hfresh
  rw [hx] at hsame
  exact (Except.ok.inj hsame).symm

/-- What is put into the field stays outside the reading of items for other fields. -/
theorem readItems_assign (h : type.Field name parse assign) (b : β) {fields : List (String × Need)}
    (hfields : name ∉ fields.map (·.1)) (items : List Json) (index : Nat) (x : α) :
    type.readItems index (assign b x) fields items =
      (type.readItems index x fields items).map (assign b) := by
  induction fields generalizing items index x with
  | nil => cases items <;> rfl
  | cons field fields ih =>
    obtain ⟨hfield, hfields⟩ := not_or.mp (mt List.mem_cons.mpr hfields)
    cases items with
    | nil =>
      simp only [readItems]
      split
      · exact ih hfields [] (index + 1) x
      · rfl
    | cons w rest =>
      simp only [readItems, h.set_assign b x field.1 w (Ne.symm hfield)]
      cases type.set x field.1 w with
      | error e => rfl
      | ok y => exact ih hfields rest (index + 1) y

/-- Of two items at the place of the field, each that can be read puts its own value there. -/
theorem read_arr (h : type.Field name parse assign) {w : Json} {c : β} (hv : parse v = .ok b)
    (hw : parse w = .ok c) {before : List Json} (after : List Json)
    (hplace : type.fields[before.length]? = some (name, .optional)) :
    type.read (.arr (before ++ v :: after)) =
      (type.read (.arr (before ++ w :: after))).map (assign b) := by
  have hitems : ∀ fields : List (String × Need), (fields.map (·.1)).Nodup →
      fields[before.length]? = some (name, .optional) → ∀ index x,
      type.readItems index x fields (before ++ v :: after) =
        (type.readItems index x fields (before ++ w :: after)).map (assign b) := by
    clear hplace
    induction before with
    | nil =>
      intro fields hnodup hplace index x
      cases fields with
      | nil => cases hplace
      | cons field fields =>
        obtain rfl : field = (name, .optional) := Option.some.inj hplace
        obtain ⟨hname, -⟩ := List.nodup_cons.mp hnodup
        simp only [List.nil_append, readItems, h.set_eq, hv, hw]
        have hleft := h.readItems_assign b hname after (index + 1) x
        have hright := h.readItems_assign b hname after (index + 1) (assign c x)
        rw [h.assign_assign] at hright
        exact hright
    | cons u before ih =>
      intro fields hnodup hplace index x
      cases fields with
      | nil => cases hplace
      | cons field fields =>
        obtain ⟨-, hnodup⟩ := List.nodup_cons.mp hnodup
        simp only [List.cons_append, readItems]
        cases type.set x field.1 u with
        | error e => rfl
        | ok y => exact ih fields hnodup hplace (index + 1) y
  exact hitems type.fields h.distinct hplace 0 type.default

end Field

end RecordType

/-- How the members of a record are kept: as they were written, or sorted by their names. -/
inductive Arrangement where
  | asWritten
  | byName

namespace Arrangement

def arrange : Arrangement → Json → Json
  | .asWritten, v => v
  | .byName, v => v.sorted

variable (how : Arrangement)

@[simp] theorem arrange_arr (items : List Json) :
    how.arrange (.arr items) = .arr (items.map how.arrange) := by
  cases how with
  | asWritten => exact (congrArg arr (List.map_id items)).symm
  | byName => exact sorted_arr items

@[simp] theorem arrange_str (s : String) : how.arrange (.str s) = .str s := by cases how <;> rfl

@[simp] theorem arrange_nat (n : Nat) : how.arrange (nat n) = nat n := by cases how <;> rfl

@[simp] theorem arrange_null : how.arrange .null = .null := by cases how <;> rfl

@[simp] theorem arrange_obj_nil : how.arrange (.obj []) = .obj [] := by cases how <;> rfl

@[simp] theorem sorted_arrange (v : Json) : (how.arrange v).sorted = v.sorted := by
  cases how with
  | asWritten => rfl
  | byName => exact sorted_sorted v

theorem arrange_of_sorted (h : v.sorted = v) : how.arrange v = v := by
  cases how with
  | asWritten => rfl
  | byName => exact h

/-- An arranged object is an object, and has no new names. -/
theorem exists_arrange_obj (members : List (String × Json)) :
    ∃ arranged, how.arrange (.obj members) = .obj arranged ∧
      ∀ name, Fresh name members → Fresh name arranged := by
  cases how with
  | asWritten => exact ⟨members, rfl, fun _ h => h⟩
  | byName =>
    refine ⟨_, rfl, fun name h m hm hname => ?_⟩
    have hlookup := (sortedMembers_ascending .nil members).lookup_eq_some_iff.mpr hm
    rw [hname, lookup_sortedMembers, find?_of_fresh h] at hlookup
    cases hlookup

/-- A member that is added to an object adds itself to the arranged object. -/
theorem arrange_insert {name : String} {before after : List (String × Json)} (v : Json)
    (hbefore : Fresh name before) (hafter : Fresh name after) :
    ∃ front back, Fresh name front ∧ Fresh name back ∧
      how.arrange (.obj (before ++ (name, v) :: after)) =
        .obj (front ++ (name, how.arrange v) :: back) ∧
      how.arrange (.obj (before ++ after)) = .obj (front ++ back) := by
  cases how with
  | asWritten => exact ⟨before, after, hbefore, hafter, rfl, rfl⟩
  | byName => exact sorted_insert v hbefore hafter

end Arrangement

namespace RecordType

variable {α β : Type} {type : RecordType α} {name : String} {parse : Read β} {assign : β → α → α}

/-- The members that give a field its value: one of its name that can be read, or none if the value
is the default. -/
inductive Field.Gives (type : RecordType α) (name : String) (parse : Read β) (assign : β → α → α)
    (how : Arrangement) (b : β) : List (String × Json) → Prop where
  | absent : assign b type.default = type.default → Gives type name parse assign how b []
  | present {v : Json} : parse (how.arrange v) = .ok b →
    Gives type name parse assign how b [(name, v)]

/-- The members of a field put its value into what the members after them make. -/
theorem Field.read_append {how : Arrangement} {b : β} {written rest : List (String × Json)}
    (h : type.Field name parse assign) (hwritten : Gives type name parse assign how b written)
    (hrest : Fresh name rest) :
    type.read (how.arrange (.obj (written ++ rest))) =
      (type.read (how.arrange (.obj rest))).map (assign b) := by
  cases hwritten with
  | absent hb =>
    obtain ⟨arranged, heq, hfresh⟩ := how.exists_arrange_obj rest
    rw [List.nil_append, heq]
    exact (h.read_of_fresh hb (hfresh name hrest)).symm
  | @present v hv =>
    obtain ⟨front, back, hfront, hback, hwith, hwithout⟩ :=
      how.arrange_insert v (fresh_nil name) hrest
    rw [List.nil_append] at hwith hwithout
    rw [List.singleton_append, hwith, hwithout]
    exact h.read_obj hv hfront hback

end RecordType

/-- A place for a field: among the members of an object, under the name of the field, or among the
items of a list. -/
inductive Slot where
  | member (before : List (String × Json)) (name : String) (after : List (String × Json))
  | item (before after : List Json)

namespace Slot

/-- The record with a value there. -/
def fill : Slot → Json → Json
  | .member before name after, v => .obj (before ++ (name, v) :: after)
  | .item before after, v => .arr (before ++ v :: after)

/-- The record without a value there: the member is left out, an item is null. -/
def clear : Slot → Json
  | .member before _ after => .obj (before ++ after)
  | .item before after => .arr (before ++ .null :: after)

/-- The place is that of the field, which is one of `fields`. -/
def IsFor (fields : List (String × Need)) (name : String) : Slot → Prop
  | .member before own after => own = name ∧ Fresh name before ∧ Fresh name after
  | .item before _ => fields[before.length]? = some (name, .optional)

end Slot

/-- A field that takes every value is put into what is read without it. -/
theorem RecordType.Field.read_fill {α β : Type} {type : RecordType α} {name : String}
    {take : Json → β} {assign : β → α → α}
    (h : type.Field name (fun v => .ok (take v)) assign) (how : Arrangement) {slot : Slot}
    (hslot : slot.IsFor type.fields name) (v : Json) :
    type.read (how.arrange (slot.fill v)) =
      (type.read (how.arrange slot.clear)).map (assign (take (how.arrange v))) := by
  cases slot with
  | member before own after =>
    obtain ⟨rfl, hbefore, hafter⟩ := hslot
    obtain ⟨front, back, hfront, hback, hwith, hwithout⟩ := how.arrange_insert v hbefore hafter
    rw [Slot.fill, Slot.clear, hwith, hwithout]
    exact h.read_obj rfl hfront hback
  | item before after =>
    have hplace : type.fields[(before.map how.arrange).length]? = some (name, .optional) := by
      rw [List.length_map]
      exact hslot
    simp only [Slot.fill, Slot.clear, how.arrange_arr, List.map_append, List.map_cons,
      how.arrange_null]
    exact h.read_arr rfl rfl _ hplace

end MemoHints.Json
