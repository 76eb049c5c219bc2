import Mathlib.Logic.Function.Basic
import MemoHints.Proofs.Hint.Placement
import MemoHints.Proofs.Text.Replacement

/-!
# Labels and their templates

A template is read once from left to right, as characters and placeholders (`piecesOf`), and a label
that takes its values literally has them in the places of the placeholders (`literalLabel`).  Labels
are made otherwise: all emojis are filled in first, then all names, then all statuses, and each time
the whole text is searched.  So a value, alone or with the text around it, can bring in a
placeholder that is filled in later (`BringsIn`).

## When both are the same

A text in which no placeholder came in is filled as the template is (`replaceFrom_fillIn`).  For the
converse the names that came in with the emoji are counted as pieces that are spelled out in the
template (`SpellsOut`).  A status has a letter that no placeholder has, so as many statuses come
into the label as into the literal one only if none is brought in.  What remains are two fillings of
the same pieces, some of them spelled out in one, and these differ unless the name is its own
placeholder (`SpellsOut.eq_or_eq_of_fillIn_eq`).
-/

namespace MemoHints

open Text (occurrences unmark replaceFrom)

/-! ## Templates -/

/-- What a template leaves open. -/
inductive Placeholder where
  | emoji
  | name
  | status
deriving DecidableEq

namespace Placeholder

/-- A placeholder behind its opening brace. -/
def tail : Placeholder → List Char
  | .emoji => "emoji\x7d".toList
  | .name => "name\x7d".toList
  | .status => "status\x7d".toList

def text (p : Placeholder) : List Char := '\x7b' :: p.tail

/-- The placeholder with which a text starts. -/
def startOf? (text : List Char) : Option Placeholder :=
  [emoji, name, status].find? fun p => p.text.isPrefixOf text

theorem brace_not_mem_tail (p : Placeholder) : '\x7b' ∉ p.tail := by
  cases p <;> decide

theorem eq_of_start {p q : Placeholder} (h : p.text <+: q.text) : p = q := by
  revert h
  cases p <;> cases q <;> decide +kernel

theorem startOf?_eq_some_iff {p : Placeholder} {text : List Char} :
    startOf? text = some p ↔ p.text <+: text := by
  have hstart : ∀ {q}, startOf? text = some q → q.text <+: text := by
    intro q h
    have hfound := List.find?_some (p := fun p : Placeholder => p.text.isPrefixOf text) h
    exact List.isPrefixOf_iff_prefix.mp hfound
  refine ⟨hstart, fun hp => ?_⟩
  cases hfind : startOf? text with
  | none =>
    have hmem : p ∈ [emoji, name, status] := by cases p <;> decide
    exact absurd (List.isPrefixOf_iff_prefix.mpr hp) (List.find?_eq_none.mp hfind p hmem)
  | some q =>
    rcases List.prefix_or_prefix_of_prefix (hstart hfind) hp with h | h
    · rw [eq_of_start h]
    · rw [eq_of_start h]

end Placeholder

/-- A character of a template, or a placeholder that stands there. -/
inductive LabelPiece where
  | char (c : Char)
  | value (p : Placeholder)
deriving DecidableEq

/-- Reads a template once from left to right, with `skip` characters of a placeholder still to leave
out. -/
def piecesFrom : Nat → List Char → List LabelPiece
  | _, [] => []
  | 0, c :: rest =>
    match Placeholder.startOf? (c :: rest) with
    | some p => .value p :: piecesFrom (p.text.length - 1) rest
    | none => .char c :: piecesFrom 0 rest
  | skip + 1, _ :: rest => piecesFrom skip rest

/-- The pieces of a template. -/
def piecesOf (template : List Char) : List LabelPiece := piecesFrom 0 template

/-- The text that has values in the places of placeholders. -/
def fillIn (values : Placeholder → List Char) : List LabelPiece → List Char
  | [] => []
  | .char c :: pieces => c :: fillIn values pieces
  | .value p :: pieces => values p ++ fillIn values pieces

section Pieces

theorem count_char (p : Placeholder) (c : Char) (pieces : List LabelPiece) :
    (.char c :: pieces).count (.value p) = pieces.count (.value p) :=
  List.count_cons_of_ne (LabelPiece.noConfusion ·)

theorem count_value (p q : Placeholder) (pieces : List LabelPiece) :
    (.value q :: pieces).count (.value p) = pieces.count (.value p) + if p = q then 1 else 0 := by
  by_cases hpq : p = q
  · rw [hpq, List.count_cons_self, if_pos rfl]
  · rw [List.count_cons_of_ne fun h => hpq (LabelPiece.value.inj h).symm, if_neg hpq, Nat.add_zero]

theorem piecesFrom_length (front rest : List Char) :
    piecesFrom front.length (front ++ rest) = piecesFrom 0 rest := by
  induction front with
  | nil => rfl
  | cons c front ih => rw [List.length_cons, List.cons_append, piecesFrom, ih]

theorem piecesOf_text (p : Placeholder) (rest : List Char) :
    piecesOf (p.text ++ rest) = .value p :: piecesOf rest := by
  have hstart : Placeholder.startOf? ('\x7b' :: (p.tail ++ rest)) = some p :=
    Placeholder.startOf?_eq_some_iff.mpr (List.prefix_append p.text rest)
  rw [piecesOf, Placeholder.text, List.cons_append, piecesFrom]
  simp only [hstart]
  rw [Placeholder.text, List.length_cons, Nat.add_sub_cancel, piecesFrom_length, piecesOf]

theorem piecesOf_cons {c : Char} {rest : List Char}
    (h : Placeholder.startOf? (c :: rest) = none) :
    piecesOf (c :: rest) = .char c :: piecesOf rest := by
  rw [piecesOf, piecesFrom]
  simp only [h]
  rfl

/-- A template is read placeholder by placeholder, and elsewhere character by character. -/
@[elab_as_elim]
theorem templateInduction {motive : List Char → Prop} (nil : motive [])
    (text : ∀ (p : Placeholder) rest, motive rest → motive (p.text ++ rest))
    (cons : ∀ c rest, Placeholder.startOf? (c :: rest) = none → motive rest → motive (c :: rest))
    (template : List Char) : motive template := by
  induction hlength : template.length using Nat.strong_induction_on generalizing template with
  | _ n ih =>
    cases template with
    | nil => exact nil
    | cons c rest =>
      cases hstart : Placeholder.startOf? (c :: rest) with
      | none => exact cons c rest hstart (ih _ (hlength ▸ Nat.lt_succ_self _) rest rfl)
      | some p =>
        obtain ⟨after, hafter⟩ := Placeholder.startOf?_eq_some_iff.mp hstart
        rw [← hafter] at hlength ⊢
        refine text p after (ih _ ?_ after rfl)
        rw [← hlength, List.length_append, Placeholder.text, List.length_cons]
        omega

theorem occurrences_text (p q : Placeholder) (rest : List Char) :
    occurrences p.text (q.text ++ rest) =
      occurrences p.text rest + if p = q then 1 else 0 := by
  by_cases hpq : p = q
  · rw [hpq, if_pos rfl]
    exact Text.occurrences_needle q.brace_not_mem_tail rest
  · have hstart : ¬ p.text <+: '\x7b' :: (q.tail ++ rest) := by
      intro hp
      have hq : q.text <+: '\x7b' :: (q.tail ++ rest) := List.prefix_append q.text rest
      rw [← Placeholder.startOf?_eq_some_iff] at hp hq
      exact hpq (Option.some.inj (hp.symm.trans hq))
    rw [Placeholder.text, Placeholder.text, List.cons_append, Text.occurrences_cons]
    rw [Placeholder.text] at hstart
    rw [if_neg hstart, if_neg hpq, Text.occurrences_append_of_not_mem q.brace_not_mem_tail]

/-- The pieces of a template are what it is made of. -/
theorem fillIn_piecesOf (template : List Char) :
    fillIn Placeholder.text (piecesOf template) = template := by
  induction template using templateInduction with
  | nil => rfl
  | text p rest ih => rw [piecesOf_text, fillIn, ih]
  | cons c rest h ih => rw [piecesOf_cons h, fillIn, ih]

/-- No placeholder of a template is missed. -/
theorem occurrences_template (p : Placeholder) (template : List Char) :
    occurrences p.text template = (piecesOf template).count (.value p) := by
  induction template using templateInduction with
  | nil => rfl
  | text q rest ih =>
    rw [piecesOf_text, occurrences_text, ih, count_value]
  | cons c rest h ih =>
    have hstart : ¬ p.text <+: c :: rest := fun hp => by
      rw [← Placeholder.startOf?_eq_some_iff, h] at hp
      cases hp
    rw [piecesOf_cons h, Text.occurrences_cons, if_neg hstart, ih, count_char, Nat.add_zero]

end Pieces

/-! ## One placeholder after the other -/

section Stage

variable (p : Placeholder) (values : Placeholder → List Char)

/-- The text of filled pieces, where the value of one placeholder is left to be filled in. -/
def marksOf : List LabelPiece → List (Option Char)
  | [] => []
  | .char c :: pieces => some c :: marksOf pieces
  | .value q :: pieces =>
    if p = q then none :: marksOf pieces else (values q).map some ++ marksOf pieces

theorem unmark_map_append (needle front : List Char) (marked : List (Option Char)) :
    unmark needle (front.map some ++ marked) = front ++ unmark needle marked := by
  induction front with
  | nil => rfl
  | cons c front ih => rw [List.map_cons, List.cons_append, unmark, ih, List.cons_append]

theorem unmark_marksOf (value : List Char) (pieces : List LabelPiece) :
    unmark value (marksOf p values pieces) = fillIn (Function.update values p value) pieces := by
  induction pieces with
  | nil => rfl
  | cons piece pieces ih =>
    cases piece with
    | char c => rw [marksOf, unmark, fillIn, ih]
    | value q =>
      rw [marksOf, fillIn]
      by_cases hpq : p = q
      · rw [if_pos hpq, unmark, ih, hpq, Function.update_self]
      · rw [if_neg hpq, unmark_map_append, ih, Function.update_of_ne (Ne.symm hpq)]

theorem count_none_marksOf (pieces : List LabelPiece) :
    (marksOf p values pieces).count none = pieces.count (.value p) := by
  induction pieces with
  | nil => rfl
  | cons piece pieces ih =>
    cases piece with
    | char c => rw [marksOf, count_char, List.count_cons_of_ne (Option.some_ne_none c), ih]
    | value q =>
      rw [marksOf, count_value]
      by_cases hpq : p = q
      · rw [if_pos hpq, if_pos hpq, List.count_cons_self, ih]
      · have hvalue : ((values q).map some).count none = 0 := by
          simp [List.count_eq_zero]
        rw [if_neg hpq, if_neg hpq, List.count_append, hvalue, ih, Nat.zero_add, Nat.add_zero]

variable {p values}

theorem unmark_marksOf_self (h : values p = p.text) (pieces : List LabelPiece) :
    unmark p.text (marksOf p values pieces) = fillIn values pieces := by
  rw [unmark_marksOf, ← h, Function.update_eq_self]

/-- Other values may bring a placeholder in, and none takes one away. -/
theorem count_le_occurrences (h : values p = p.text) (pieces : List LabelPiece) :
    pieces.count (.value p) ≤ occurrences p.text (fillIn values pieces) := by
  rw [← unmark_marksOf_self h, ← count_none_marksOf p values]
  exact Text.count_none_le_occurrences p.brace_not_mem_tail _

/-- Without stray braces no placeholder comes in. -/
theorem occurrences_fillIn_of_plain (h : values p = p.text) {pieces : List LabelPiece}
    (hchars : ∀ c, .char c ∈ pieces → c ≠ '\x7b')
    (hvalues : ∀ q, values q = q.text ∨ '\x7b' ∉ values q) :
    occurrences p.text (fillIn values pieces) = pieces.count (.value p) := by
  induction pieces with
  | nil => rfl
  | cons piece pieces ih =>
    have hrest := ih fun c hc => hchars c (List.mem_cons_of_mem _ hc)
    cases piece with
    | char c =>
      have hstart : ¬ p.text <+: c :: fillIn values pieces := fun hstart =>
        hchars c List.mem_cons_self (List.cons_prefix_cons.mp hstart).1.symm
      rw [fillIn, Text.occurrences_cons, if_neg hstart, hrest, count_char, Nat.add_zero]
    | value q =>
      rw [fillIn, count_value]
      rcases hvalues q with hself | hplain
      · rw [hself, occurrences_text, hrest]
      · have hpq : p ≠ q := by
          rintro rfl
          exact hplain (h ▸ List.mem_cons_self)
        rw [Placeholder.text, Text.occurrences_append_of_not_mem hplain, ← Placeholder.text, hrest,
          if_neg hpq, Nat.add_zero]

/-- The values of a placeholder that is not brought in come where the template has it. -/
theorem replaceFrom_fillIn (h : values p = p.text) {pieces : List LabelPiece}
    (hall : occurrences p.text (fillIn values pieces) = pieces.count (.value p))
    (value : List Char) : replaceFrom p.text value 0 (fillIn values pieces) =
      fillIn (Function.update values p value) pieces := by
  rw [← unmark_marksOf_self h, ← count_none_marksOf p values] at hall
  rw [← unmark_marksOf_self h, ← unmark_marksOf]
  exact Text.replaceFrom_unmark p.brace_not_mem_tail value hall

theorem count_fillIn (h : values p = p.text) {d : Char} (hd : p.text.count d = 0)
    (value : List Char) (pieces : List LabelPiece) :
    (fillIn (Function.update values p value) pieces).count d =
      (fillIn values pieces).count d + pieces.count (.value p) * value.count d := by
  rw [← unmark_marksOf_self h, ← unmark_marksOf, Text.count_unmark, Text.count_unmark, hd,
    count_none_marksOf]
  omega

end Stage

/-! ## Placeholders that come in with values -/

/-- Pieces some of which are spelled out as the characters of a placeholder. -/
inductive SpellsOut (p : Placeholder) : List LabelPiece → List LabelPiece → Prop where
  | nil : SpellsOut p [] []
  | keep {spelled pieces : List LabelPiece} (piece : LabelPiece) (h : SpellsOut p spelled pieces) :
    SpellsOut p (piece :: spelled) (piece :: pieces)
  | spell {spelled pieces : List LabelPiece} (h : SpellsOut p spelled pieces) :
    SpellsOut p (p.text.map .char ++ spelled) (.value p :: pieces)

theorem fillIn_map_append (values : Placeholder → List Char) (front : List Char)
    (pieces : List LabelPiece) :
    fillIn values (front.map .char ++ pieces) = front ++ fillIn values pieces := by
  induction front with
  | nil => rfl
  | cons c front ih => rw [List.map_cons, List.cons_append, fillIn, ih, List.cons_append]

theorem count_map_append (p : Placeholder) (front : List Char) (pieces : List LabelPiece) :
    (front.map LabelPiece.char ++ pieces).count (.value p) = pieces.count (.value p) := by
  induction front with
  | nil => rfl
  | cons c front ih => rw [List.map_cons, List.cons_append, count_char, ih]

namespace SpellsOut

variable {p : Placeholder} {spelled pieces : List LabelPiece}

theorem fillIn_eq (h : SpellsOut p spelled pieces) {values : Placeholder → List Char}
    (hp : values p = p.text) : fillIn values spelled = fillIn values pieces := by
  induction h with
  | nil => rfl
  | keep piece _ ih => cases piece <;> rw [fillIn, fillIn, ih]
  | spell _ ih => rw [fillIn_map_append, fillIn, ih, hp]

theorem count_le (h : SpellsOut p spelled pieces) (q : Placeholder) :
    spelled.count (.value q) ≤ pieces.count (.value q) := by
  induction h with
  | nil => exact Nat.le_refl _
  | keep piece _ ih =>
    rw [List.count_cons, List.count_cons]
    exact Nat.add_le_add_right ih _
  | spell _ ih =>
    rw [count_map_append, count_value]
    exact ih.trans (Nat.le_add_right _ _)

theorem eq_of_count_eq (h : SpellsOut p spelled pieces)
    (hcount : spelled.count (.value p) = pieces.count (.value p)) : spelled = pieces := by
  induction h with
  | nil => rfl
  | keep piece _ ih =>
    rw [List.count_cons, List.count_cons] at hcount
    rw [ih (Nat.add_right_cancel hcount)]
  | spell h ih =>
    have hle := h.count_le p
    rw [count_map_append, count_value, if_pos rfl] at hcount
    omega

/-- Each piece that is spelled out makes the difference between the placeholder and its value. -/
theorem length_fillIn (h : SpellsOut p spelled pieces) (values : Placeholder → List Char) :
    (fillIn values pieces).length + pieces.count (.value p) * p.text.length +
        spelled.count (.value p) * (values p).length =
      (fillIn values spelled).length + spelled.count (.value p) * p.text.length +
        pieces.count (.value p) * (values p).length := by
  induction h with
  | nil => rfl
  | keep piece _ ih =>
    cases piece with
    | char c =>
      rw [fillIn, fillIn, count_char, count_char, List.length_cons, List.length_cons]
      omega
    | value q =>
      rw [fillIn, fillIn, count_value, count_value, List.length_append, List.length_append]
      split <;> simp only [Nat.add_mul, Nat.one_mul, Nat.zero_mul] <;> omega
  | spell _ ih =>
    rw [fillIn_map_append, fillIn, count_map_append, count_value, if_pos rfl, List.length_append,
      List.length_append, Nat.add_mul, Nat.add_mul, Nat.one_mul, Nat.one_mul]
    omega

/-- What is spelled out differs from a value of the same length. -/
theorem eq_or_eq_of_length_eq (h : SpellsOut p spelled pieces) {values : Placeholder → List Char}
    (hlength : (values p).length = p.text.length)
    (hfill : fillIn values spelled = fillIn values pieces) :
    spelled = pieces ∨ values p = p.text := by
  induction h with
  | nil => exact .inl rfl
  | @keep spelled pieces piece _ ih =>
    have hrest : fillIn values spelled = fillIn values pieces := by
      cases piece with
      | char c => exact (List.cons.inj hfill).2
      | value q => exact List.append_cancel_left hfill
    exact (ih hrest).imp (congrArg (piece :: ·)) id
  | spell _ _ =>
    rw [fillIn_map_append, fillIn] at hfill
    exact .inr (List.append_inj hfill hlength.symm).1.symm

/-- A value that makes no difference is the placeholder itself. -/
theorem eq_or_eq_of_fillIn_eq (h : SpellsOut p spelled pieces) {values : Placeholder → List Char}
    (hfill : fillIn values spelled = fillIn values pieces) :
    spelled = pieces ∨ values p = p.text := by
  by_cases hcount : spelled.count (.value p) = pieces.count (.value p)
  · exact .inl (h.eq_of_count_eq hcount)
  · have hle := h.count_le p
    obtain ⟨k, hk⟩ := Nat.exists_eq_add_of_lt (Nat.lt_of_le_of_ne hle hcount)
    have hlength := h.length_fillIn values
    rw [hfill, hk] at hlength
    simp only [Nat.add_mul, Nat.one_mul] at hlength
    have hproduct : (k + 1) * (values p).length = (k + 1) * p.text.length := by
      simp only [Nat.add_mul, Nat.one_mul]
      omega
    exact h.eq_or_eq_of_length_eq (Nat.eq_of_mul_eq_mul_left k.succ_pos hproduct) hfill

end SpellsOut

/-- No character but the first of a placeholder is that of another. -/
theorem exists_eq_map_append {front : List Char} (hfront : '\x7b' ∉ front)
    {pieces : List LabelPiece} (h : front <+: fillIn Placeholder.text pieces) :
    ∃ rest, pieces = front.map .char ++ rest := by
  induction front generalizing pieces with
  | nil => exact ⟨pieces, rfl⟩
  | cons c front ih =>
    obtain ⟨hc, hfront⟩ := not_or.mp (mt List.mem_cons.mpr hfront)
    cases pieces with
    | nil => exact absurd (List.prefix_nil.mp h) (List.cons_ne_nil _ _)
    | cons piece pieces =>
      cases piece with
      | char d =>
        obtain ⟨rfl, hrest⟩ := List.cons_prefix_cons.mp h
        obtain ⟨rest, rfl⟩ := ih hfront hrest
        exact ⟨rest, rfl⟩
      | value q => exact absurd (List.cons_prefix_cons.mp h).1.symm hc

/-- Every occurrence of a placeholder is one of its pieces, or is spelled out. -/
theorem exists_spellsOut (p : Placeholder) (pieces : List LabelPiece) :
    ∃ whole, SpellsOut p pieces whole ∧
      occurrences p.text (fillIn Placeholder.text pieces) = whole.count (.value p) := by
  induction hlength : pieces.length using Nat.strong_induction_on generalizing pieces with
  | _ n ih =>
    cases pieces with
    | nil => exact ⟨[], .nil, rfl⟩
    | cons piece pieces =>
      cases piece with
      | value q =>
        obtain ⟨whole, hspells, hall⟩ := ih _ (hlength ▸ Nat.lt_succ_self _) pieces rfl
        refine ⟨.value q :: whole, .keep _ hspells, ?_⟩
        rw [fillIn, occurrences_text, hall, count_value]
      | char c =>
        by_cases hstart : p.text <+: c :: fillIn Placeholder.text pieces
        · obtain ⟨rfl, htail⟩ := List.cons_prefix_cons.mp hstart
          obtain ⟨rest, rfl⟩ := exists_eq_map_append p.brace_not_mem_tail htail
          have hshorter : rest.length < n := by
            rw [← hlength, List.length_cons, List.length_append]
            omega
          obtain ⟨whole, hspells, hall⟩ := ih _ hshorter rest rfl
          refine ⟨.value p :: whole, .spell hspells, ?_⟩
          have htext := occurrences_text p p (fillIn Placeholder.text rest)
          rw [if_pos rfl, hall] at htext
          rw [fillIn, fillIn_map_append, count_value, if_pos rfl]
          exact htext
        · obtain ⟨whole, hspells, hall⟩ := ih _ (hlength ▸ Nat.lt_succ_self _) pieces rfl
          refine ⟨.char c :: whole, .keep _ hspells, ?_⟩
          rw [fillIn, Text.occurrences_cons, if_neg hstart, hall, count_char, Nat.add_zero]

/-! ## Placeholders that are written out -/

section WriteOut

variable (p : Placeholder) (value : List Char)

/-- The pieces with the characters of a value in the places of its placeholder. -/
def writeOut : List LabelPiece → List LabelPiece
  | [] => []
  | .char c :: pieces => .char c :: writeOut pieces
  | .value q :: pieces =>
    if p = q then value.map .char ++ writeOut pieces else .value q :: writeOut pieces

theorem fillIn_writeOut (values : Placeholder → List Char) (pieces : List LabelPiece) :
    fillIn values (writeOut p value pieces) = fillIn (Function.update values p value) pieces := by
  induction pieces with
  | nil => rfl
  | cons piece pieces ih =>
    cases piece with
    | char c => rw [writeOut, fillIn, fillIn, ih]
    | value q =>
      rw [writeOut, fillIn]
      by_cases hpq : p = q
      · rw [if_pos hpq, fillIn_map_append, ih, hpq, Function.update_self]
      · rw [if_neg hpq, fillIn, ih, Function.update_of_ne (Ne.symm hpq)]

theorem count_writeOut {q : Placeholder} (hq : q ≠ p) (pieces : List LabelPiece) :
    (writeOut p value pieces).count (.value q) = pieces.count (.value q) := by
  induction pieces with
  | nil => rfl
  | cons piece pieces ih =>
    cases piece with
    | char c => rw [writeOut, count_char, count_char, ih]
    | value r =>
      rw [writeOut, count_value]
      by_cases hpr : p = r
      · rw [if_pos hpr, count_map_append, ih, if_neg (hpr ▸ hq), Nat.add_zero]
      · rw [if_neg hpr, count_value, ih]

end WriteOut

/-! ## Labels -/

/-- The values of a label. -/
def labelValues (emoji name status : List Char) : Placeholder → List Char
  | .emoji => emoji
  | .name => name
  | .status => status

section InTurn

variable (pieces : List LabelPiece) (emoji name status value : List Char)

theorem update_emoji : Function.update (labelValues emoji name status) .emoji value =
    labelValues value name status := by
  funext p
  cases p <;> rfl

theorem update_name : Function.update (labelValues emoji name status) .name value =
    labelValues emoji value status := by
  funext p
  cases p <;> rfl

theorem update_status : Function.update (labelValues emoji name status) .status value =
    labelValues emoji name value := by
  funext p
  cases p <;> rfl

theorem labelValues_text :
    labelValues Placeholder.emoji.text Placeholder.name.text Placeholder.status.text =
      Placeholder.text := by
  funext p
  cases p <;> rfl

theorem labelValues_name :
    labelValues emoji Placeholder.name.text status .name = Placeholder.name.text := rfl

theorem labelValues_status :
    labelValues emoji name Placeholder.status.text .status = Placeholder.status.text := rfl

/-- The pieces with the emoji, where the name and the status are still to be filled in. -/
abbrev withEmoji : List Char :=
  fillIn (labelValues emoji Placeholder.name.text Placeholder.status.text) pieces

/-- The pieces with the emoji and the name. -/
abbrev withName : List Char := fillIn (labelValues emoji name Placeholder.status.text) pieces

/-- The emoji comes where the template has it, because nothing is filled in before it. -/
theorem replaceFrom_emoji (template : List Char) :
    replaceFrom Placeholder.emoji.text emoji 0 template = withEmoji (piecesOf template) emoji := by
  have hall : occurrences Placeholder.emoji.text (fillIn Placeholder.text (piecesOf template)) =
      (piecesOf template).count (.value .emoji) := by
    rw [fillIn_piecesOf]
    exact occurrences_template .emoji template
  have hfilled := replaceFrom_fillIn rfl hall emoji
  rwa [fillIn_piecesOf, ← labelValues_text, update_emoji] at hfilled

/-- What keeps the name in its places. -/
def NameInPlace : Prop :=
  name = Placeholder.name.text ∨
    occurrences Placeholder.name.text (withEmoji pieces emoji) = pieces.count (.value .name)

/-- What keeps the status in its places. -/
def StatusInPlace : Prop :=
  occurrences Placeholder.status.text (withName pieces emoji name) = pieces.count (.value .status)

variable {pieces emoji name}

theorem replaceFrom_name (h : NameInPlace pieces emoji name) :
    replaceFrom Placeholder.name.text name 0 (withEmoji pieces emoji) =
      withName pieces emoji name := by
  rcases h with rfl | hall
  · exact Text.replaceFrom_self (Placeholder.brace_not_mem_tail .name) _
  · rw [replaceFrom_fillIn (labelValues_name emoji _) hall, update_name]

theorem replaceFrom_status (h : StatusInPlace pieces emoji name) :
    replaceFrom Placeholder.status.text status 0 (withName pieces emoji name) =
      fillIn (labelValues emoji name status) pieces := by
  rw [replaceFrom_fillIn (labelValues_status emoji name) h, update_status]

/-- The names that come in with the emoji can be counted as pieces of their own. -/
theorem exists_withEmoji_pieces (pieces : List LabelPiece) (emoji : List Char) :
    ∃ whole, SpellsOut .name (writeOut .emoji emoji pieces) whole ∧
      occurrences Placeholder.name.text (withEmoji pieces emoji) = whole.count (.value .name) ∧
      ∀ name, replaceFrom Placeholder.name.text name 0 (withEmoji pieces emoji) =
        withName whole emoji name := by
  obtain ⟨whole, hspells, hall⟩ := exists_spellsOut .name (writeOut .emoji emoji pieces)
  have hemoji : withEmoji pieces emoji = withEmoji whole emoji := by
    rw [withEmoji, withEmoji, ← hspells.fillIn_eq (labelValues_name emoji _), fillIn_writeOut,
      update_emoji]
  have htext : fillIn Placeholder.text (writeOut .emoji emoji pieces) = withEmoji pieces emoji := by
    rw [fillIn_writeOut, ← labelValues_text, update_emoji]
  rw [htext] at hall
  refine ⟨whole, hspells, hall, fun name => ?_⟩
  rw [hemoji] at hall ⊢
  rw [replaceFrom_fillIn (labelValues_name emoji _) hall, update_name]

/-- How often a character is there that no placeholder has. -/
theorem count_filled {d : Char} (hd : ∀ p : Placeholder, p.text.count d = 0) :
    (fillIn (labelValues emoji name status) pieces).count d =
      (withEmoji pieces emoji).count d + pieces.count (.value .name) * name.count d +
        pieces.count (.value .status) * status.count d := by
  have hname := count_fillIn (labelValues_name emoji Placeholder.status.text) (hd .name) name pieces
  have hstatus := count_fillIn (labelValues_status emoji name) (hd .status) status pieces
  rw [update_name] at hname
  rw [update_status, hname] at hstatus
  exact hstatus

theorem count_replaced {d : Char} (hd : ∀ p : Placeholder, p.text.count d = 0) (p : Placeholder)
    (value text : List Char) :
    (replaceFrom p.text value 0 text).count d =
      text.count d + occurrences p.text text * value.count d := by
  have hcount := Text.count_replaceFrom p.brace_not_mem_tail value text d
  have hp := hd p
  rw [Placeholder.text] at hp ⊢
  rwa [hp, Nat.mul_zero, Nat.add_zero] at hcount

/-- The fillings of names and statuses make one text of the pieces only when both stay in place: the
statuses can be counted by a character that they alone bring, and then what names came in with the
emoji tells the texts apart. -/
theorem inPlace_of_filled_eq {d : Char} (hd : ∀ p : Placeholder, p.text.count d = 0)
    (hstatus : status.count d = 1)
    (h : replaceFrom Placeholder.status.text status 0
        (replaceFrom Placeholder.name.text name 0 (withEmoji pieces emoji)) =
      fillIn (labelValues emoji name status) pieces) :
    NameInPlace pieces emoji name ∧ StatusInPlace pieces emoji name := by
  obtain ⟨whole, hspells, hnames, hreplaced⟩ := exists_withEmoji_pieces pieces emoji
  have hnames_le := hspells.count_le .name
  have hstatuses_le := hspells.count_le .status
  rw [count_writeOut .emoji emoji (by decide)] at hnames_le hstatuses_le
  have hbrought : whole.count (.value .status) ≤
      occurrences Placeholder.status.text (withName whole emoji name) :=
    count_le_occurrences (labelValues_status emoji name) whole
  have hcounts := congrArg (List.count d) h
  rw [count_replaced hd, count_replaced hd, count_filled status hd, hreplaced, hnames, hstatus,
    Nat.mul_one, Nat.mul_one] at hcounts
  have hproducts := Nat.mul_le_mul_right (name.count d) hnames_le
  have hstatuses : occurrences Placeholder.status.text (withName whole emoji name) =
      pieces.count (.value .status) := by omega
  -- all statuses are pieces, so the texts are fillings of pieces of which some are spelled out
  have hwhole : StatusInPlace whole emoji name := by
    rw [StatusInPlace]
    omega
  rw [hreplaced, replaceFrom_status status hwhole] at h
  have hspelled : fillIn (labelValues emoji name status) (writeOut .emoji emoji pieces) =
      fillIn (labelValues emoji name status) whole := by
    rw [fillIn_writeOut, update_emoji, h]
  have hname : NameInPlace pieces emoji name := by
    rcases hspells.eq_or_eq_of_fillIn_eq hspelled with hsame | hself
    · rw [← hsame, count_writeOut .emoji emoji (by decide)] at hnames
      exact .inr hnames
    · exact .inl hself
  refine ⟨hname, ?_⟩
  rwa [StatusInPlace, ← replaceFrom_name hname, hreplaced]

/-- The template is filled kind by kind as it is in one pass exactly when names and statuses stay in
place. -/
theorem filled_eq_iff {d : Char} (hd : ∀ p : Placeholder, p.text.count d = 0)
    (hstatus : status.count d = 1) :
    replaceFrom Placeholder.status.text status 0
        (replaceFrom Placeholder.name.text name 0 (withEmoji pieces emoji)) =
      fillIn (labelValues emoji name status) pieces ↔
    NameInPlace pieces emoji name ∧ StatusInPlace pieces emoji name := by
  constructor
  · exact inPlace_of_filled_eq status hd hstatus
  · rintro ⟨hname, hinPlace⟩
    rw [replaceFrom_name hname, replaceFrom_status status hinPlace]

end InTurn

section Literal

/-- With its earlier values a template has a placeholder in more places than without them. -/
def BringsIn (p : Placeholder) (values : Placeholder → List Char) (template : List Char) : Prop :=
  occurrences p.text template < occurrences p.text (fillIn values (piecesOf template))

instance (p : Placeholder) (values : Placeholder → List Char) (template : List Char) :
    Decidable (BringsIn p values template) :=
  inferInstanceAs (Decidable (_ < _))

theorem not_bringsIn_iff {p : Placeholder} {values : Placeholder → List Char}
    (h : values p = p.text) (template : List Char) :
    ¬ BringsIn p values template ↔
      occurrences p.text (fillIn values (piecesOf template)) =
        (piecesOf template).count (.value p) := by
  have hle := count_le_occurrences h (piecesOf template)
  rw [BringsIn, occurrences_template, Nat.not_lt]
  exact ⟨fun hge => Nat.le_antisymm hge hle, Nat.le_of_eq⟩

/-- A value and the text behind it make a placeholder together. -/
example : BringsIn .name (labelValues ['\x7b'] Placeholder.name.text Placeholder.status.text)
    "\x7bemoji\x7dname\x7d".toList := by
  decide

namespace HintConfig

variable (config : HintConfig) (emoji name : String) (status : HintStatus)

/-- The template with all placeholders filled in one pass. -/
def literalLabel : String :=
  String.ofList (fillIn (labelValues emoji.toList name.toList status.name.toList)
    (piecesOf config.labelTemplate.toList))

/-- The values bring no placeholder into the label that is still to be filled in.  Only a name that
is its own placeholder may come in, because then nothing changes. -/
structure KeepsPlaces : Prop where
  names : name.toList = Placeholder.name.text ∨
    ¬ BringsIn .name (labelValues emoji.toList Placeholder.name.text Placeholder.status.text)
      config.labelTemplate.toList
  statuses : ¬ BringsIn .status (labelValues emoji.toList name.toList Placeholder.status.text)
    config.labelTemplate.toList

theorem keepsPlaces_iff : config.KeepsPlaces emoji name ↔
    NameInPlace (piecesOf config.labelTemplate.toList) emoji.toList name.toList ∧
      StatusInPlace (piecesOf config.labelTemplate.toList) emoji.toList name.toList := by
  rw [NameInPlace, StatusInPlace, withEmoji, withName, ← not_bringsIn_iff (labelValues_name _ _),
    ← not_bringsIn_iff (labelValues_status _ _)]
  exact ⟨fun h => ⟨h.names, h.statuses⟩, fun h => ⟨h.1, h.2⟩⟩

theorem label_eq : config.label emoji name status =
    String.ofList (replaceFrom Placeholder.status.text status.name.toList 0
      (replaceFrom Placeholder.name.text name.toList 0
        (withEmoji (piecesOf config.labelTemplate.toList) emoji.toList))) := by
  rw [← replaceFrom_emoji]
  simp only [label, Text.replace, String.toList_ofList]
  rfl

/-- A label takes its values literally exactly when they bring no placeholder in. -/
theorem label_eq_literalLabel_iff :
    config.label emoji name status = config.literalLabel emoji name status ↔
      config.KeepsPlaces emoji name := by
  have hplaceholders : ∀ p : Placeholder, p.text.count 'd' = 0 := by
    intro p
    cases p <;> decide
  have hstatus : status.name.toList.count 'd' = 1 := by cases status <;> decide
  rw [label_eq, literalLabel, String.ofList_inj, filled_eq_iff _ hplaceholders hstatus,
    keepsPlaces_iff]

/-- Without stray braces nothing is brought in. -/
theorem keepsPlaces_of_plain
    (htemplate : ∀ c, .char c ∈ piecesOf config.labelTemplate.toList → c ≠ '\x7b')
    (hemoji : '\x7b' ∉ emoji.toList) (hname : '\x7b' ∉ name.toList) :
    config.KeepsPlaces emoji name := by
  rw [keepsPlaces_iff]
  constructor
  · refine .inr (occurrences_fillIn_of_plain (labelValues_name _ _) htemplate fun q => ?_)
    cases q with
    | emoji => exact .inr hemoji
    | name => exact .inl rfl
    | status => exact .inl rfl
  · refine occurrences_fillIn_of_plain (labelValues_status _ _) htemplate fun q => ?_
    cases q with
    | emoji => exact .inr hemoji
    | name => exact .inr hname
    | status => exact .inl rfl

/-- The emoji of hints with a status. -/
def emojiOf? : HintStatus → Option String
  | .compiled => config.successEmoji
  | .failed => config.errorEmoji

end HintConfig

/-! ## Labels of hints -/

variable (text : String) (result : CompileResult) (config : HintConfig)

/-- The values that a hint has for its label. -/
structure HasValues (hint : Hint) (emoji name : String) : Prop where
  emoji_eq : config.emojiOf? hint.status = some emoji
  made : ∃ first rest, MadeFrom text result config hint (first :: rest) ∧
    first.componentName = name

variable {text result config}

/-- The first event of a hint has the name for its label. -/
theorem MadeFrom.label_eq {hint : Hint} {events : List DiagnosticEvent}
    (h : MadeFrom text result config hint events) :
    ∃ emoji first rest, events = first :: rest ∧ config.emojiOf? hint.status = some emoji ∧
      hint.label = config.label emoji first.componentName hint.status := by
  cases h with
  | @compiled emoji event shown _ made =>
    obtain ⟨position, -, rfl⟩ := Option.map_eq_some_iff.mp made
    exact ⟨emoji, event, [], rfl, shown, rfl⟩
  | @failed emoji place shown made =>
    cases hevents : eventsAt result.failed place with
    | nil =>
      rw [hevents] at made
      cases made
    | cons first rest =>
      rw [hevents] at made
      obtain ⟨position, -, rfl⟩ := Option.map_eq_some_iff.mp made
      exact ⟨emoji, first, rest, rfl, shown, rfl⟩

theorem HasValues.label_eq {hint : Hint} {emoji name : String}
    (h : HasValues text result config hint emoji name) :
    hint.label = config.label emoji name hint.status := by
  obtain ⟨first, rest, hmade, rfl⟩ := h.made
  obtain ⟨_, _, _, hfirst, hemoji, hlabel⟩ := hmade.label_eq
  cases hfirst
  cases h.emoji_eq.symm.trans hemoji
  exact hlabel

variable (text result config)

/-- **Labels take values literally exactly when no value brings a placeholder in.**  Every hint has
an emoji and a name.  Its label is the template with these and the status in the places of the
template if and only if the emoji brings no place for a name in, and both bring none for a
status. -/
theorem hint_label_literal_iff :
    (∀ hint ∈ project text result config, ∃ emoji name,
      HasValues text result config hint emoji name) ∧
    ∀ hint emoji name, HasValues text result config hint emoji name →
      hint.label = config.label emoji name hint.status ∧
      (hint.label = config.literalLabel emoji name hint.status ↔
        config.KeepsPlaces emoji name) := by
  refine ⟨fun hint hhint => ?_, fun hint emoji name h => ⟨h.label_eq, ?_⟩⟩
  · obtain ⟨events, hmade⟩ := (mem_project_iff _ _ _).mp hhint
    obtain ⟨emoji, first, rest, rfl, hemoji, -⟩ := hmade.label_eq
    exact ⟨emoji, first.componentName, hemoji, first, rest, hmade, rfl⟩
  · rw [h.label_eq, HintConfig.label_eq_literalLabel_iff]

/-- An emoji that is the placeholder of the name. -/
theorem not_hint_label_literal : ¬ ∀ text result config hint emoji name,
    HasValues text result config hint emoji name →
      hint.label = config.literalLabel emoji name hint.status := by
  intro h
  let event : DiagnosticEvent := { fnName := some "Card" }
  let config : HintConfig :=
    ⟨some "\x7bname\x7d", none, "\x7bemoji\x7d \x7bstatus\x7d", .markdown, .lineEnd, {}, ""⟩
  obtain ⟨hint, hmade⟩ : ∃ hint, successHint? (documentLines "const Card = () => \x7b\x7d;") config
      "\x7bname\x7d" event = some hint := Option.isSome_iff_exists.mp (by decide +kernel)
  have hstatus : hint.status = .compiled := by
    obtain ⟨_, -, rfl⟩ := Option.map_eq_some_iff.mp hmade
    rfl
  have hvalues : HasValues "const Card = () => \x7b\x7d;" ⟨[event], []⟩ config hint
      "\x7bname\x7d" event.componentName :=
    ⟨by rw [hstatus]; rfl, event, [], .compiled rfl List.mem_cons_self hmade, rfl⟩
  have hliteral := hvalues.label_eq.symm.trans (h _ _ _ _ _ _ hvalues)
  rw [hstatus] at hliteral
  exact absurd hliteral (by decide +kernel)

end Literal

end MemoHints
