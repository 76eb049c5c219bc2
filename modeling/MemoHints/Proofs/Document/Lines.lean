import MemoHints.Document.Lines
import MemoHints.Proofs.Text.Utf16

/-!
# Lines between their ends

A text is its lines with the ends of lines between them.  There is one way to split it so
(`SplitAtEnds.lines_eq`), because no line holds a character that ends one, and a carriage return is
no end of its own in front of a line feed.
-/

namespace MemoHints

open Text (units16)

/-- What ends a line. -/
inductive LineEnd where
  | crlf
  | lf
  | cr
deriving DecidableEq

def LineEnd.text : LineEnd → List Char
  | .crlf => ['\r', '\n']
  | .lf => ['\n']
  | .cr => ['\r']

/-- A text in which no line ends. -/
def Unbroken (line : List Char) : Prop := ∀ c ∈ line, c ≠ '\n' ∧ c ≠ '\r'

/-- A text split into lines, with the ends of all lines but the last. -/
inductive SplitAtEnds : List Char → List (List Char) → List LineEnd → Prop where
  | last {line : List Char} (h : Unbroken line) : SplitAtEnds line [line] []
  | cons {line rest : List Char} {ending : LineEnd} {lines : List (List Char)}
    {ends : List LineEnd} (h : Unbroken line)
    (whole : ending = .cr → rest.head? ≠ some '\n') (hrest : SplitAtEnds rest lines ends) :
    SplitAtEnds (line ++ ending.text ++ rest) (line :: lines) (ending :: ends)

section LinesOf

variable {line : List Char}

theorem linesOf_cons {c : Char} (hc : c ≠ '\n' ∧ c ≠ '\r') {rest : List Char}
    {more : List (List Char)} (h : linesOf rest = line :: more) :
    linesOf (c :: rest) = (c :: line) :: more := by
  have hplain : ¬ (c = '\n' ∨ c = '\r') := not_or.mpr hc
  rw [linesOf, if_neg hplain, h]
  simp [hc.2]

theorem linesOf_ending {ending : LineEnd} {rest : List Char}
    (whole : ending = .cr → rest.head? ≠ some '\n') :
    linesOf (ending.text ++ rest) = [] :: linesOf rest := by
  cases ending with
  | crlf => rfl
  | lf => rfl
  | cr =>
    cases rest with
    | nil => rfl
    | cons c rest =>
      have hc : c ≠ '\n' := fun hc => whole rfl (congrArg some hc)
      rw [LineEnd.text, List.singleton_append, linesOf, if_pos (.inr rfl)]
      simp [hc]

theorem linesOf_append (h : Unbroken line) {text first : List Char} {more : List (List Char)}
    (htext : linesOf text = first :: more) :
    linesOf (line ++ text) = (line ++ first) :: more := by
  induction line with
  | nil => exact htext
  | cons c line ih =>
    obtain ⟨hc, hline⟩ := List.forall_mem_cons.mp h
    exact linesOf_cons hc (ih hline)

/-- A text is split in no other way. -/
theorem SplitAtEnds.lines_eq {text : List Char} {lines : List (List Char)} {ends : List LineEnd}
    (h : SplitAtEnds text lines ends) : lines = linesOf text := by
  induction h with
  | last h =>
    have hwhole : linesOf (_ ++ []) = [_ ++ []] := linesOf_append h rfl
    simpa only [List.append_nil] using hwhole.symm
  | cons h whole _ ih =>
    have hwhole := linesOf_append h (linesOf_ending whole)
    rw [List.append_nil, ← ih, ← List.append_assoc] at hwhole
    exact hwhole.symm

theorem SplitAtEnds.prepend {c : Char} (hc : c ≠ '\n' ∧ c ≠ '\r') {text : List Char}
    {more : List (List Char)} {ends : List LineEnd} (h : SplitAtEnds text (line :: more) ends) :
    SplitAtEnds (c :: text) ((c :: line) :: more) ends := by
  cases h with
  | last h => exact .last (List.forall_mem_cons.mpr ⟨hc, h⟩)
  | cons h whole hrest => exact .cons (List.forall_mem_cons.mpr ⟨hc, h⟩) whole hrest

theorem SplitAtEnds.emptyLine {rest : List Char} {lines : List (List Char)} {ends : List LineEnd}
    (ending : LineEnd) (whole : ending = .cr → rest.head? ≠ some '\n')
    (hrest : SplitAtEnds rest lines ends) :
    SplitAtEnds (ending.text ++ rest) ([] :: lines) (ending :: ends) :=
  .cons (List.forall_mem_nil _) whole hrest

/-- Every text is split. -/
theorem exists_splitAtEnds (text : List Char) : ∃ ends, SplitAtEnds text (linesOf text) ends := by
  fun_induction linesOf text with
  | case1 => exact ⟨[], .last (List.forall_mem_nil _)⟩
  | case2 rest ih =>
    obtain ⟨ends, hrest⟩ := ih
    exact ⟨.crlf :: ends, hrest.emptyLine .crlf nofun⟩
  | case3 c rest hcrlf hend ih =>
    obtain ⟨ends, hrest⟩ := ih
    rcases hend with rfl | rfl
    · exact ⟨.lf :: ends, hrest.emptyLine .lf nofun⟩
    · have hwhole : rest.head? ≠ some '\n' := fun hhead => by
        obtain ⟨tail, htail⟩ := List.head?_eq_some_iff.mp hhead
        exact hcrlf tail rfl htail
      exact ⟨.cr :: ends, hrest.emptyLine .cr fun _ => hwhole⟩
  | case4 c rest _ _ hnil ih =>
    obtain ⟨ends, hrest⟩ := ih
    rw [hnil] at hrest
    cases hrest
  | case5 c rest _ hend line more hlines ih =>
    obtain ⟨ends, hrest⟩ := ih
    rw [hlines] at hrest
    exact ⟨ends, hrest.prepend (not_or.mp hend)⟩

end LinesOf

/-! ## Sizes -/

theorem LineEnd.one_le_units16_text (ending : LineEnd) : 1 ≤ units16 ending.text := by
  cases ending <;> decide

/-- A text is at least as long as its lines and has room for their ends. -/
theorem SplitAtEnds.units16_bounds {text : List Char} {lines : List (List Char)}
    {ends : List LineEnd} (h : SplitAtEnds text lines ends) :
    lines.length ≤ units16 text + 1 ∧ ∀ line ∈ lines, units16 line ≤ units16 text := by
  induction h with
  | @last line _ => exact ⟨by simp, by simp⟩
  | @cons line rest ending lines ends _ _ _ ih =>
    have hend := ending.one_le_units16_text
    rw [Text.units16_append, Text.units16_append, List.length_cons]
    refine ⟨by omega, List.forall_mem_cons.mpr ⟨by omega, fun other hother => ?_⟩⟩
    have hle := ih.2 other hother
    omega

end MemoHints
