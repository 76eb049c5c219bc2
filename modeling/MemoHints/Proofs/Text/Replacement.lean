import Mathlib.Data.List.Infix
import MemoHints.Text.Search

/-!
# What a replacement replaces

A text can be written with marks in the place of a needle (`unmark`).  When the needle cannot
overlap itself, because the character with which it starts does not come again in it, the marks of a
text never exceed its occurrences (`count_none_le_occurrences`), and a replacement puts the filler
where the marks are exactly when every occurrence has one (`replaceFrom_unmark`).
-/

namespace MemoHints.Text

/-- How many times a needle stands in a text. -/
def occurrences (needle text : List Char) : Nat := text.tails.countP needle.isPrefixOf

/-- The text with a needle in the place of each mark. -/
def unmark (needle : List Char) : List (Option Char) → List Char
  | [] => []
  | none :: marked => needle ++ unmark needle marked
  | some c :: marked => c :: unmark needle marked

section Marks

variable {a : Char} {tail : List Char}

theorem occurrences_cons (needle : List Char) (c : Char) (rest : List Char) :
    occurrences needle (c :: rest) =
      occurrences needle rest + if needle <+: c :: rest then 1 else 0 := by
  simp [occurrences, List.countP_cons]

/-- A needle starts where its first character is. -/
theorem occurrences_append_of_not_mem {front : List Char} (h : a ∉ front) (rest : List Char) :
    occurrences (a :: tail) (front ++ rest) = occurrences (a :: tail) rest := by
  induction front with
  | nil => rfl
  | cons c front ih =>
    obtain ⟨hc, hfront⟩ := not_or.mp (mt List.mem_cons.mpr h)
    rw [List.cons_append, occurrences_cons, ih hfront, if_neg, Nat.add_zero]
    exact fun hstart => hc (List.cons_prefix_cons.mp hstart).1

theorem occurrences_needle (ha : a ∉ tail) (rest : List Char) :
    occurrences (a :: tail) (a :: tail ++ rest) = occurrences (a :: tail) rest + 1 := by
  rw [List.cons_append, occurrences_cons, occurrences_append_of_not_mem ha, if_pos]
  exact List.cons_append ▸ List.prefix_append (a :: tail) rest

theorem replaceFrom_length (needle filler front rest : List Char) :
    replaceFrom needle filler front.length (front ++ rest) = replaceFrom needle filler 0 rest := by
  induction front with
  | nil => rfl
  | cons c front ih => rw [List.length_cons, List.cons_append, replaceFrom, ih]

theorem replaceFrom_needle (filler rest : List Char) :
    replaceFrom (a :: tail) filler 0 (a :: tail ++ rest) =
      filler ++ replaceFrom (a :: tail) filler 0 rest := by
  have hstart : (a :: tail).isPrefixOf (a :: (tail ++ rest)) = true :=
    List.isPrefixOf_iff_prefix.mpr (List.prefix_append (a :: tail) rest)
  rw [List.cons_append, replaceFrom, if_pos hstart, List.length_cons, Nat.add_sub_cancel,
    replaceFrom_length]

theorem replaceFrom_cons {needle : List Char} {c : Char} {rest : List Char}
    (h : ¬ needle <+: c :: rest) (filler : List Char) :
    replaceFrom needle filler 0 (c :: rest) = c :: replaceFrom needle filler 0 rest := by
  rw [replaceFrom, if_neg (mt List.isPrefixOf_iff_prefix.mp h)]

/-- Marks stand at occurrences. -/
theorem count_none_le_occurrences (ha : a ∉ tail) (marked : List (Option Char)) :
    marked.count none ≤ occurrences (a :: tail) (unmark (a :: tail) marked) := by
  induction marked with
  | nil => exact Nat.zero_le _
  | cons c marked ih =>
    cases c with
    | none =>
      rw [List.count_cons_self, unmark, occurrences_needle ha]
      exact Nat.succ_le_succ ih
    | some c =>
      rw [List.count_cons_of_ne (Option.some_ne_none c), unmark, occurrences_cons]
      exact ih.trans (Nat.le_add_right _ _)

/-- A replacement fills marks when there are no other occurrences. -/
theorem replaceFrom_unmark (ha : a ∉ tail) (filler : List Char) {marked : List (Option Char)}
    (h : occurrences (a :: tail) (unmark (a :: tail) marked) = marked.count none) :
    replaceFrom (a :: tail) filler 0 (unmark (a :: tail) marked) = unmark filler marked := by
  induction marked with
  | nil => rfl
  | cons c marked ih =>
    cases c with
    | none =>
      rw [List.count_cons_self, unmark, occurrences_needle ha] at h
      rw [unmark, unmark, replaceFrom_needle, ih (Nat.succ.inj h)]
    | some c =>
      rw [List.count_cons_of_ne (Option.some_ne_none c), unmark, occurrences_cons] at h
      have hle := count_none_le_occurrences ha marked
      have hstart : ¬ a :: tail <+: c :: unmark (a :: tail) marked := by
        intro hstart
        rw [if_pos hstart] at h
        omega
      rw [if_neg hstart] at h
      rw [unmark, unmark, replaceFrom_cons hstart, ih h]

/-- Every occurrence in a text can be marked. -/
theorem exists_marked (ha : a ∉ tail) (text : List Char) :
    ∃ marked, unmark (a :: tail) marked = text ∧
      occurrences (a :: tail) text = marked.count none := by
  induction hlength : text.length using Nat.strong_induction_on generalizing text with
  | _ n ih =>
    cases text with
    | nil => exact ⟨[], rfl, rfl⟩
    | cons c rest =>
      by_cases hstart : a :: tail <+: c :: rest
      · obtain ⟨after, hafter⟩ := hstart
        have hshorter : after.length < n := by
          rw [← hlength, ← hafter, List.length_append, List.length_cons]
          omega
        obtain ⟨marked, rfl, hall⟩ := ih _ hshorter after rfl
        refine ⟨none :: marked, hafter, ?_⟩
        rw [← hafter, occurrences_needle ha, hall, List.count_cons_self]
      · obtain ⟨marked, rfl, hall⟩ := ih _ (hlength ▸ Nat.lt_succ_self _) rest rfl
        refine ⟨some c :: marked, rfl, ?_⟩
        rw [occurrences_cons, if_neg hstart, hall, List.count_cons_of_ne (Option.some_ne_none c),
          Nat.add_zero]

theorem count_unmark (needle : List Char) (marked : List (Option Char)) (d : Char) :
    (unmark needle marked).count d =
      marked.count (some d) + marked.count none * needle.count d := by
  induction marked with
  | nil => simp [unmark]
  | cons c marked ih =>
    cases c with
    | none =>
      have hmark : (none :: marked).count (some d) = marked.count (some d) :=
        List.count_cons_of_ne (Option.some_ne_none d).symm
      rw [unmark, List.count_append, ih, hmark, List.count_cons_self, Nat.add_mul, Nat.one_mul]
      omega
    | some c =>
      rw [unmark, List.count_cons, ih, List.count_cons,
        List.count_cons_of_ne (Option.some_ne_none c)]
      simp only [beq_iff_eq, Option.some.injEq]
      omega

/-- Each occurrence takes the characters of the needle and gives those of the filler. -/
theorem count_replaceFrom (ha : a ∉ tail) (filler text : List Char) (d : Char) :
    (replaceFrom (a :: tail) filler 0 text).count d +
        occurrences (a :: tail) text * (a :: tail).count d =
      text.count d + occurrences (a :: tail) text * filler.count d := by
  obtain ⟨marked, rfl, hall⟩ := exists_marked ha text
  rw [replaceFrom_unmark ha filler hall, hall, count_unmark, count_unmark]
  omega

theorem replaceFrom_self (ha : a ∉ tail) (text : List Char) :
    replaceFrom (a :: tail) (a :: tail) 0 text = text := by
  obtain ⟨marked, rfl, hall⟩ := exists_marked ha text
  exact replaceFrom_unmark ha (a :: tail) hall

end Marks

end MemoHints.Text
