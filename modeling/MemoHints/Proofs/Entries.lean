import Mathlib.Data.List.Basic

/-!
# Lists of keys and values

What is found under a key when the entries of a key are taken out of a list.
-/

namespace MemoHints

section Entries

variable {κ α : Type} [BEq κ] [LawfulBEq κ]

theorem mem_of_lookup_eq_some {entries : List (κ × α)} {key : κ} {v : α}
    (h : entries.lookup key = some v) : (key, v) ∈ entries := by
  obtain ⟨before, after, rfl, -⟩ := List.lookup_eq_some_iff.mp h
  simp

theorem lookup_cons_of_ne {entries : List (κ × α)} {key other : κ} (v : α) (h : other ≠ key) :
    List.lookup other ((key, v) :: entries) = entries.lookup other := by
  have hne : (other == key) = false := by simpa using h
  rw [List.lookup_cons, hne]

theorem lookup_eq_none_iff_not_mem {entries : List (κ × α)} {key : κ} :
    entries.lookup key = none ↔ key ∉ entries.map Prod.fst := by
  constructor
  · intro h hmem
    obtain ⟨e, he, rfl⟩ := List.mem_map.mp hmem
    simpa using List.lookup_eq_none_iff.mp h e he
  · intro h
    refine List.lookup_eq_none_iff.mpr fun e he => ?_
    have hne : e.1 ≠ key := fun heq => h (List.mem_map.mpr ⟨e, he, heq⟩)
    simpa using hne.symm

/-- With different keys, each entry is the one that its key stands for. -/
theorem lookup_eq_some_iff_mem {entries : List (κ × α)} (h : (entries.map Prod.fst).Nodup) {key : κ}
    {v : α} : entries.lookup key = some v ↔ (key, v) ∈ entries := by
  refine ⟨mem_of_lookup_eq_some, fun hmem => ?_⟩
  induction entries with
  | nil => cases hmem
  | cons first rest ih =>
    obtain ⟨k, u⟩ := first
    obtain ⟨hfirst, hrest⟩ := List.nodup_cons.mp h
    rcases List.mem_cons.mp hmem with heq | hlater
    · cases heq
      exact List.lookup_cons_self
    · have hne : key ≠ k := fun heq => hfirst (List.mem_map.mpr ⟨_, hlater, heq⟩)
      rw [lookup_cons_of_ne u hne]
      exact ih hrest hlater

variable [DecidableEq κ]

/-- A key that is taken out is not found. -/
theorem lookup_filter_self (entries : List (κ × α)) (key : κ) :
    (entries.filter (·.1 ≠ key)).lookup key = none := by
  refine lookup_eq_none_iff_not_mem.mpr fun hmem => ?_
  obtain ⟨e, he, hkey⟩ := List.mem_map.mp hmem
  exact of_decide_eq_true (List.mem_filter.mp he).2 hkey

/-- Other keys are found as before. -/
theorem lookup_filter_of_ne (entries : List (κ × α)) {key other : κ} (h : other ≠ key) :
    (entries.filter (·.1 ≠ key)).lookup other = entries.lookup other := by
  induction entries with
  | nil => rfl
  | cons e entries ih =>
    obtain ⟨k, v⟩ := e
    by_cases hk : k = key
    · subst hk
      rw [List.filter_cons_of_neg (by simp), ih, lookup_cons_of_ne v h]
    · rw [List.filter_cons_of_pos (by simpa using hk), List.lookup_cons, List.lookup_cons, ih]

end Entries

end MemoHints
