import Mathlib.Data.List.Basic
import MemoHints.Json.Basic
import MemoHints.Proofs.Entries

/-!
# The sorted form of a value

Sorting a value keeps, of each name, its last member.  What it leaves is fixed by what `find?`
finds: ascending members with the same entries are the same list (`eq_of_lookup_eq`).  From this
follow the two facts that readers of sorted values rest on: sorting again changes nothing, and a
member that is added to a record adds itself to the sorted record and nothing else.
-/

namespace MemoHints.Json

variable {members before after : List (String × Json)} {name other : String} {v w : Json}

/-! ## Members by name -/

/-- No member has the name. -/
def Fresh (name : String) (members : List (String × Json)) : Prop := ∀ m ∈ members, m.1 ≠ name

@[simp] theorem fresh_nil (name : String) : Fresh name [] := nofun

@[simp] theorem fresh_cons {m : String × Json} :
    Fresh name (m :: members) ↔ m.1 ≠ name ∧ Fresh name members := List.forall_mem_cons

@[simp] theorem fresh_append :
    Fresh name (before ++ after) ↔ Fresh name before ∧ Fresh name after :=
  List.forall_mem_append

theorem find?_of_fresh (h : Fresh name members) : find? name members = none := by
  induction members with
  | nil => rfl
  | cons m rest ih =>
    obtain ⟨hne, hrest⟩ := fresh_cons.mp h
    simp [find?, ih hrest, hne]

theorem mem_of_find? (h : find? name members = some v) : (name, v) ∈ members := by
  induction members with
  | nil => cases h
  | cons m rest ih =>
    simp only [find?] at h
    split at h
    · next u hfound =>
      obtain rfl := Option.some.inj h
      exact List.mem_cons_of_mem _ (ih hfound)
    · split at h
      · next hname =>
        obtain rfl := Option.some.inj h
        exact hname ▸ List.mem_cons_self
      · cases h

/-- The only member of a name is the one that is found. -/
theorem find?_insert_self (hbefore : Fresh name before) (hafter : Fresh name after) :
    find? name (before ++ (name, v) :: after) = some v := by
  induction before with
  | nil => simp [find?, find?_of_fresh hafter]
  | cons m rest ih =>
    obtain ⟨-, hrest⟩ := fresh_cons.mp hbefore
    simp [find?, ih hrest]

/-- A member does not matter to other names. -/
theorem find?_insert_of_ne (h : other ≠ name) :
    find? other (before ++ (name, v) :: after) = find? other (before ++ after) := by
  induction before with
  | nil =>
    simp only [List.nil_append, find?, h.symm, if_false]
    cases find? other after <;> rfl
  | cons m rest ih => simp only [List.cons_append, find?, ih]

/-- An object with a value under a name, whatever it had there. -/
def setMember (name : String) (v : Json) (members : List (String × Json)) : List (String × Json) :=
  members.filter (·.1 ≠ name) ++ [(name, v)]

theorem find?_setMember_self : find? name (setMember name v members) = some v :=
  find?_insert_self (fun m hm => by simpa using (List.mem_filter.mp hm).2) (fresh_nil name)

theorem find?_setMember_of_ne (h : other ≠ name) :
    find? other (setMember name v members) = find? other members := by
  rw [setMember, find?_insert_of_ne h, List.append_nil]
  induction members with
  | nil => rfl
  | cons m rest ih =>
    obtain ⟨k, w⟩ := m
    by_cases hk : k = name
    · subst hk
      rw [List.filter_cons_of_neg (by simp), ih, find?, if_neg h.symm]
      cases find? other rest <;> rfl
    · rw [List.filter_cons_of_pos (by simpa using hk), find?, find?, ih]

/-! ## Parts -/

/-- What stands in a list or in a record. -/
inductive Part (v : Json) : Json → Prop where
  | item {items : List Json} : v ∈ items → Part v (.arr items)
  | member {name : String} {members : List (String × Json)} :
    (name, v) ∈ members → Part v (.obj members)

theorem Part.sizeOf_lt (h : Part v w) : sizeOf v < sizeOf w := by
  cases h with
  | item h =>
    have := List.sizeOf_lt_of_mem h
    simp only [arr.sizeOf_spec]
    omega
  | member h =>
    have := List.sizeOf_lt_of_mem h
    simp only [Prod.mk.sizeOf_spec, obj.sizeOf_spec] at this ⊢
    omega

/-! ## Ascending members -/

/-- Names ascending, so that each of them stands once. -/
def Ascending (members : List (String × Json)) : Prop := members.Pairwise (·.1 < ·.1)

theorem lookup_insertMember_self (name : String) (v : Json) (members : List (String × Json)) :
    (insertMember name v members).lookup name = some v := by
  induction members with
  | nil => exact List.lookup_cons_self
  | cons m rest ih =>
    obtain ⟨k, u⟩ := m
    simp only [insertMember]
    split
    · exact List.lookup_cons_self
    · split
      · exact List.lookup_cons_self
      · next hne => rw [lookup_cons_of_ne _ (Ne.symm hne), ih]

theorem lookup_insertMember_of_ne (h : other ≠ name) (v : Json) (members : List (String × Json)) :
    (insertMember name v members).lookup other = members.lookup other := by
  induction members with
  | nil => exact lookup_cons_of_ne v h
  | cons m rest ih =>
    obtain ⟨k, u⟩ := m
    simp only [insertMember]
    split
    · exact lookup_cons_of_ne v h
    · split
      · next hk => rw [lookup_cons_of_ne v h, lookup_cons_of_ne u (hk ▸ h)]
      · rw [List.lookup_cons, List.lookup_cons, ih]

theorem mem_insertMember {m : String × Json} (h : m ∈ insertMember name v members) :
    m = (name, v) ∨ m ∈ members := by
  induction members with
  | nil => exact .inl (List.mem_singleton.mp h)
  | cons first rest ih =>
    obtain ⟨k, u⟩ := first
    simp only [insertMember] at h
    split at h
    · exact List.mem_cons.mp h
    · split at h
      · exact (List.mem_cons.mp h).imp_right (List.mem_cons_of_mem _)
      · rcases List.mem_cons.mp h with rfl | h
        · exact .inr List.mem_cons_self
        · exact (ih h).imp_right (List.mem_cons_of_mem _)

theorem insertMember_ascending (h : Ascending members) (name : String) (v : Json) :
    Ascending (insertMember name v members) := by
  induction members with
  | nil => exact List.pairwise_singleton _ _
  | cons first rest ih =>
    obtain ⟨k, u⟩ := first
    obtain ⟨hfirst, hrest⟩ := List.pairwise_cons.mp h
    simp only [insertMember]
    split
    · next hlt =>
      refine .cons (fun m hm => ?_) h
      rcases List.mem_cons.mp hm with rfl | hm
      · exact hlt
      · exact String.lt_trans hlt (hfirst m hm)
    · next hlt =>
      split
      · next hk => exact .cons (fun m hm => hk ▸ hfirst m hm) hrest
      · next hk =>
        refine .cons (fun m hm => ?_) (ih hrest)
        rcases mem_insertMember hm with rfl | hm
        · -- the names are comparable and neither equal nor the other way round
          have hle : k ≤ name := String.not_lt.mp hlt
          by_contra hnot
          exact hk (String.le_antisymm hle (String.not_lt.mp hnot))
        · exact hfirst m hm

theorem Ascending.lookup_eq_some_iff (h : Ascending members) :
    members.lookup name = some v ↔ (name, v) ∈ members :=
  lookup_eq_some_iff_mem (List.pairwise_map.mpr (h.imp fun hlt => String.ne_of_lt hlt))

/-- Ascending members are the same when each name has the same value among them. -/
theorem eq_of_lookup_eq {a b : List (String × Json)} (ha : Ascending a) (hb : Ascending b)
    (h : ∀ name, a.lookup name = b.lookup name) : a = b := by
  have hnodup : ∀ {l : List (String × Json)}, Ascending l → l.Nodup := by
    intro l hl
    refine List.Pairwise.imp ?_ hl
    rintro m m' hlt rfl
    exact String.lt_irrefl _ hlt
  refine List.Perm.eq_of_pairwise ?_ ha hb ?_
  · intro m m' _ _ hlt hgt
    exact absurd (String.lt_trans hlt hgt) (String.lt_irrefl _)
  · refine (List.perm_ext_iff_of_nodup (hnodup ha) (hnodup hb)).mpr fun m => ?_
    rw [← ha.lookup_eq_some_iff, ← hb.lookup_eq_some_iff, h]

/-- A name stands once among ascending members. -/
theorem Ascending.exists_split (h : Ascending members) (hv : members.lookup name = some v) :
    ∃ front back, members = front ++ (name, v) :: back ∧ Fresh name front ∧ Fresh name back := by
  obtain ⟨front, back, rfl, hfront⟩ := List.lookup_eq_some_iff.mp hv
  refine ⟨front, back, rfl, fun m hm heq => ?_, fun m hm => ?_⟩
  · simpa [heq] using hfront m hm
  · exact (String.ne_of_lt ((List.pairwise_cons.mp (List.pairwise_append.mp h).2.1).1 m hm)).symm

/-! ## Sorting -/

@[simp] theorem sortedItems_eq (items : List Json) :
    sorted.sortedItems items = items.map sorted := by
  induction items with
  | nil => rfl
  | cons v rest ih => rw [sorted.sortedItems, ih, List.map_cons]

@[simp] theorem sorted_arr (items : List Json) : (arr items).sorted = .arr (items.map sorted) := by
  rw [sorted, sortedItems_eq]

theorem sortedMembers_ascending {done : List (String × Json)} (h : Ascending done)
    (members : List (String × Json)) : Ascending (sorted.sortedMembers done members) := by
  induction members generalizing done with
  | nil => exact h
  | cons m rest ih => exact ih (insertMember_ascending h _ _)

/-- A name keeps its last value, in sorted form. -/
theorem lookup_sortedMembers (done members : List (String × Json)) (name : String) :
    (sorted.sortedMembers done members).lookup name =
      ((find? name members).map sorted).or (done.lookup name) := by
  induction members generalizing done with
  | nil => rfl
  | cons m rest ih =>
    obtain ⟨k, v⟩ := m
    rw [sorted.sortedMembers, ih, find?]
    cases find? name rest with
    | some u => rfl
    | none =>
      by_cases hk : k = name
      · simp [hk, lookup_insertMember_self]
      · simp [hk, lookup_insertMember_of_ne (Ne.symm hk)]

/-- Sorted members are those ascending ones that have the last value of each name, sorted. -/
theorem sortedMembers_eq {members kept : List (String × Json)} (hkept : Ascending kept)
    (h : ∀ name, kept.lookup name = (find? name members).map sorted) :
    sorted.sortedMembers [] members = kept := by
  refine eq_of_lookup_eq (sortedMembers_ascending .nil members) hkept fun name => ?_
  rw [lookup_sortedMembers, h]
  exact Option.or_none

theorem Ascending.find?_eq_lookup (h : Ascending members) (name : String) :
    find? name members = members.lookup name := by
  induction members with
  | nil => rfl
  | cons first rest ih =>
    obtain ⟨k, u⟩ := first
    obtain ⟨hfirst, hrest⟩ := List.pairwise_cons.mp h
    by_cases hk : k = name
    · subst hk
      have hfresh : Fresh k rest := fun m hm => (String.ne_of_lt (hfirst m hm)).symm
      rw [List.lookup_cons_self]
      exact find?_insert_self (fresh_nil k) hfresh
    · rw [lookup_cons_of_ne u (Ne.symm hk), ← ih hrest]
      have hskip : find? name ([] ++ (k, u) :: rest) = find? name ([] ++ rest) :=
        find?_insert_of_ne (Ne.symm hk)
      exact hskip

/-- Sorting a sorted value changes nothing. -/
@[simp] theorem sorted_sorted (v : Json) : v.sorted.sorted = v.sorted := by
  match v with
  | .arr items =>
    simp only [sorted_arr, List.map_map, arr.injEq]
    refine List.map_congr_left fun u hu => ?_
    have hsize := (Part.item hu).sizeOf_lt
    exact sorted_sorted u
  | .obj members =>
    have hascending := sortedMembers_ascending .nil members
    simp only [sorted]
    refine congrArg obj (sortedMembers_eq hascending fun name => ?_)
    rw [hascending.find?_eq_lookup, lookup_sortedMembers]
    simp only [List.lookup_nil, Option.or_none, Option.map_map]
    refine Option.map_congr fun u hu => ?_
    have hsize := (Part.member (mem_of_find? hu)).sizeOf_lt
    exact (sorted_sorted u).symm
  | .null | .bool _ | .int _ | .float _ | .str _ => rfl
termination_by sizeOf v
decreasing_by all_goals exact hsize

/-- A member that is added to a record adds itself to the sorted record. -/
theorem sorted_insert (v : Json) (hbefore : Fresh name before) (hafter : Fresh name after) :
    ∃ front back, Fresh name front ∧ Fresh name back ∧
      (obj (before ++ (name, v) :: after)).sorted = .obj (front ++ (name, v.sorted) :: back) ∧
      (obj (before ++ after)).sorted = .obj (front ++ back) := by
  have hall := sortedMembers_ascending .nil (before ++ (name, v) :: after)
  have hself : (sorted.sortedMembers [] (before ++ (name, v) :: after)).lookup name =
      some v.sorted := by
    rw [lookup_sortedMembers, find?_insert_self hbefore hafter]
    rfl
  obtain ⟨front, back, hsplit, hfront, hback⟩ := hall.exists_split hself
  rw [hsplit] at hall
  have hrest : Ascending (front ++ back) :=
    hall.sublist ((List.Sublist.refl front).append (List.sublist_cons_self _ _))
  refine ⟨front, back, hfront, hback, ?_, ?_⟩
  · rw [sorted, hsplit]
  · rw [sorted]
    refine congrArg obj (sortedMembers_eq hrest fun other => ?_)
    by_cases hother : other = name
    · subst hother
      rw [← hrest.find?_eq_lookup, find?_of_fresh (fresh_append.mpr ⟨hfront, hback⟩),
        find?_of_fresh (fresh_append.mpr ⟨hbefore, hafter⟩)]
      rfl
    · have hlookup := lookup_sortedMembers [] (before ++ (name, v) :: after) other
      rw [hsplit, ← hall.find?_eq_lookup, find?_insert_of_ne hother, find?_insert_of_ne hother,
        hrest.find?_eq_lookup] at hlookup
      simpa using hlookup

/-- Two members stand in one order or the other. -/
theorem sorted_pair (h : name ≠ other) (v w : Json) :
    (obj [(name, v), (other, w)]).sorted = .obj [(name, v.sorted), (other, w.sorted)] ∨
      (obj [(name, v), (other, w)]).sorted = .obj [(other, w.sorted), (name, v.sorted)] := by
  simp only [sorted, sorted.sortedMembers, insertMember, h, if_false]
  split
  · exact .inr rfl
  · exact .inl rfl

/-- What stands in a sorted value is sorted. -/
theorem Part.sorted_eq (h : Part v w) (hsorted : w.sorted = w) : v.sorted = v := by
  cases h with
  | item h =>
    rw [sorted_arr, arr.injEq] at hsorted
    obtain ⟨u, -, rfl⟩ := List.mem_map.mp (hsorted ▸ h)
    exact sorted_sorted u
  | @member name members h =>
    rw [sorted, obj.injEq] at hsorted
    have hlookup := (sortedMembers_ascending .nil members).lookup_eq_some_iff.mpr (hsorted.symm ▸ h)
    rw [lookup_sortedMembers, List.lookup_nil, Option.or_none] at hlookup
    obtain ⟨u, -, rfl⟩ := Option.map_eq_some_iff.mp hlookup
    exact sorted_sorted u

end MemoHints.Json
