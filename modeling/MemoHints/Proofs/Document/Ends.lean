import Mathlib.Data.List.Range
import MemoHints.Proofs.Document.Lines

/-!
# Ends of lines

Where lines end can be told from a text without its lines: at every carriage return, and at every
line feed that does not belong to a carriage return in front of it (`endAt?`).  The lines are what
stands between (`documentLines_between_ends`).  How a line ends makes no difference to them, as long
as no carriage return comes to stand in front of a line feed, which only an empty line between the
two prevents (`EndsApart`).

A search that cuts off one line after the other finds them, in as many rounds as there are ends
(`LineScan.Runs`).
-/

namespace MemoHints

/-! ## Ends in a text -/

/-- What ends a line at an offset, if anything does.  At the start of a text the character in front
is taken to be the one that stands there. -/
def endAt? (text : List Char) (i : Nat) : Option LineEnd :=
  if text[i]? = some '\r' then
    if text[i + 1]? = some '\n' then some .crlf else some .cr
  else if text[i]? = some '\n' ∧ text[i - 1]? ≠ some '\r' then some .lf
  else none

/-- The ends of the lines of a text, each with its offset. -/
def lineEnds (text : List Char) : List (Nat × LineEnd) :=
  (List.range text.length).filterMap fun i => (endAt? text i).map (i, ·)

/-- An end that stands so much further back. -/
def moveEnd (distance : Nat) (place : Nat × LineEnd) : Nat × LineEnd :=
  (distance + place.1, place.2)

section LineEnds

variable {line rest : List Char} {ending : LineEnd}

theorem endAt?_of_unbroken (h : Unbroken line) (tail : List Char) {i : Nat} (hi : i < line.length) :
    endAt? (line ++ tail) i = none := by
  have hchar := h _ (List.getElem_mem hi)
  rw [endAt?, List.getElem?_append_left hi, List.getElem?_eq_getElem hi]
  simp [hchar.1, hchar.2]

/-- What stands in front of a text does not end its lines, unless it tears a pair apart. -/
theorem endAt?_append {front : List Char}
    (h : front.getLast? = some '\r' → rest.head? ≠ some '\n') (i : Nat) :
    endAt? (front ++ rest) (front.length + i) = endAt? rest i := by
  have hnext : (front ++ rest)[front.length + i + 1]? = rest[i + 1]? := by
    rw [Nat.add_assoc, List.getElem?_append_right (by omega), Nat.add_sub_cancel_left]
  rw [endAt?, endAt?, hnext, List.getElem?_append_right (by omega), Nat.add_sub_cancel_left]
  cases i with
  | succ i =>
    rw [← Nat.add_assoc, Nat.add_sub_cancel, List.getElem?_append_right (by omega),
      Nat.add_sub_cancel_left, Nat.add_sub_cancel]
  | zero =>
    by_cases hlf : rest[0]? = some '\n'
    · have hfront : (front ++ rest)[front.length - 1]? ≠ some '\r' := by
        rcases List.eq_nil_or_concat front with rfl | ⟨front, last, rfl⟩
        · simp [hlf]
        · simpa using mt h (not_not_intro (List.head?_eq_getElem?.trans hlf))
      simp [hlf, hfront]
    · simp [hlf]

theorem lineEnds_append {front : List Char}
    (h : front.getLast? = some '\r' → rest.head? ≠ some '\n') :
    lineEnds (front ++ rest) =
      ((List.range front.length).filterMap fun i => (endAt? (front ++ rest) i).map (i, ·)) ++
        (lineEnds rest).map (moveEnd front.length) := by
  rw [lineEnds, List.length_append, List.range_add, List.filterMap_append, List.filterMap_map,
    lineEnds, List.map_filterMap]
  congr 2
  funext i
  rw [Function.comp_apply, endAt?_append h, Option.map_map]
  rfl

theorem lineEnds_line (h : Unbroken line) (tail : List Char) :
    lineEnds (line ++ tail) = (lineEnds tail).map (moveEnd line.length) := by
  have hlast : line.getLast? ≠ some '\r' := fun hlast =>
    (h _ (List.mem_of_getLast? hlast)).2 rfl
  rw [lineEnds_append fun hcr => absurd hcr hlast, List.append_left_eq_self]
  refine List.filterMap_eq_nil_iff.mpr fun i hi => ?_
  rw [endAt?_of_unbroken h tail (List.mem_range.mp hi), Option.map_none]

theorem lineEnds_of_unbroken (h : Unbroken line) : lineEnds line = [] := by
  have hnil := lineEnds_line h []
  rwa [List.append_nil] at hnil

theorem lineEnds_ending (whole : ending = .cr → rest.head? ≠ some '\n') :
    lineEnds (ending.text ++ rest) =
      (0, ending) :: (lineEnds rest).map (moveEnd ending.text.length) := by
  have hwhole : ending.text.getLast? = some '\r' → rest.head? ≠ some '\n' := by
    cases ending with
    | crlf => simp [LineEnd.text]
    | lf => simp [LineEnd.text]
    | cr => exact fun _ => whole rfl
  rw [lineEnds_append hwhole, ← List.singleton_append, List.append_cancel_right_eq]
  cases ending with
  | crlf => simp [LineEnd.text, List.range_succ, endAt?]
  | lf => simp [LineEnd.text, endAt?]
  | cr =>
    have hnext : rest[0]? ≠ some '\n' := by
      rw [← List.head?_eq_getElem?]
      exact whole rfl
    simp [LineEnd.text, endAt?, hnext]

/-- The first end of a text stands behind its first line. -/
theorem lineEnds_cons (h : Unbroken line) (whole : ending = .cr → rest.head? ≠ some '\n') :
    lineEnds (line ++ ending.text ++ rest) = (line.length, ending) ::
      (lineEnds rest).map (moveEnd (line ++ ending.text).length) := by
  rw [List.append_assoc, lineEnds_line h, lineEnds_ending whole, List.map_cons, List.map_map,
    List.length_append]
  congr 2
  funext place
  rw [Function.comp_apply, moveEnd, moveEnd, moveEnd, Nat.add_assoc]

end LineEnds

/-! ## Lines and ends in turn -/

/-- The text that has these lines with these ends between them. -/
def joinLines : List (List Char) → List LineEnd → List Char
  | [], _ => []
  | line :: lines, [] => line ++ joinLines lines []
  | line :: lines, ending :: ends => line ++ ending.text ++ joinLines lines ends

/-- Ends of which no two make one, as a carriage return and a line feed do across an empty line. -/
def EndsApart (lines : List (List Char)) (ends : List LineEnd) : Prop :=
  ∀ k, ends[k]? = some .cr → lines[k + 1]? = some [] → ends[k + 1]? ≠ some .lf

section JoinLines

variable {line : List Char} {lines : List (List Char)} {ending : LineEnd} {ends : List LineEnd}

theorem endsApart_nil : EndsApart lines [] := fun k h => by cases h

/-- A text starts with a line feed when its first line is empty and ends with one. -/
theorem head?_joinLines (hlength : lines.length = ends.length + 1)
    (hlines : ∀ line ∈ lines, Unbroken line) :
    (joinLines lines ends).head? = some '\n' ↔ lines[0]? = some [] ∧ ends[0]? = some .lf := by
  obtain ⟨line, lines, rfl⟩ := List.exists_cons_of_length_eq_add_one hlength
  obtain ⟨hline, -⟩ := List.forall_mem_cons.mp hlines
  cases line with
  | cons c line =>
    have hc : c ≠ '\n' := (List.forall_mem_cons.mp hline).1.1
    cases ends <;> simp [joinLines, hc]
  | nil =>
    cases ends with
    | nil =>
      obtain rfl : lines = [] := List.length_eq_zero_iff.mp (Nat.succ.inj hlength)
      simp [joinLines]
    | cons ending ends => cases ending <;> simp [joinLines, LineEnd.text]

theorem endsApart_cons (hlength : lines.length = ends.length + 1)
    (hlines : ∀ line ∈ lines, Unbroken line) : EndsApart (line :: lines) (ending :: ends) ↔
      (ending = .cr → (joinLines lines ends).head? ≠ some '\n') ∧ EndsApart lines ends := by
  rw [Ne, head?_joinLines hlength hlines, not_and]
  constructor
  · exact fun h => ⟨fun hcr => h 0 (congrArg some hcr), fun k => h (k + 1)⟩
  · rintro ⟨hfirst, hrest⟩ (_ | k) hcr
    · exact hfirst (Option.some.inj hcr)
    · exact hrest k hcr

/-- Whether a text is split is seen from its lines and ends. -/
theorem splitAtEnds_iff {text : List Char} : SplitAtEnds text lines ends ↔
    lines.length = ends.length + 1 ∧ (∀ line ∈ lines, Unbroken line) ∧ EndsApart lines ends ∧
      joinLines lines ends = text := by
  constructor
  · intro h
    induction h with
    | last h => exact ⟨rfl, List.forall_mem_singleton.mpr h, endsApart_nil, List.append_nil _⟩
    | cons h whole _ ih =>
      obtain ⟨hlength, hlines, hapart, rfl⟩ := ih
      exact ⟨congrArg (· + 1) hlength, List.forall_mem_cons.mpr ⟨h, hlines⟩,
        (endsApart_cons hlength hlines).mpr ⟨whole, hapart⟩, rfl⟩
  · rintro ⟨hlength, hlines, hapart, rfl⟩
    induction ends generalizing lines with
    | nil =>
      obtain ⟨line, rfl⟩ := List.length_eq_one_iff.mp hlength
      rw [joinLines, joinLines, List.append_nil]
      exact .last (List.forall_mem_singleton.mp hlines)
    | cons ending ends ih =>
      obtain ⟨line, lines, rfl⟩ := List.exists_cons_of_length_eq_add_one hlength
      obtain ⟨hline, hlines⟩ := List.forall_mem_cons.mp hlines
      have hlength := Nat.succ.inj hlength
      obtain ⟨whole, hapart⟩ := (endsApart_cons hlength hlines).mp hapart
      exact .cons hline whole (ih hlength hlines hapart)

/-- Two ends that make one leave a line less. -/
theorem length_linesOf_joinLines (hlength : lines.length = ends.length + 1)
    (hlines : ∀ line ∈ lines, Unbroken line) :
    (linesOf (joinLines lines ends)).length ≤ lines.length ∧
      (¬ EndsApart lines ends → (linesOf (joinLines lines ends)).length < lines.length) := by
  induction ends generalizing lines with
  | nil =>
    obtain ⟨line, rfl⟩ := List.length_eq_one_iff.mp hlength
    have hsplit : SplitAtEnds line [line] [] := .last (List.forall_mem_singleton.mp hlines)
    rw [joinLines, joinLines, List.append_nil, ← hsplit.lines_eq]
    exact ⟨le_rfl, fun h => absurd endsApart_nil h⟩
  | cons ending ends ih =>
    obtain ⟨line, lines, rfl⟩ := List.exists_cons_of_length_eq_add_one hlength
    obtain ⟨hline, hlines⟩ := List.forall_mem_cons.mp hlines
    have hlength := Nat.succ.inj hlength
    obtain ⟨hle, hlt⟩ := ih hlength hlines
    rw [joinLines, List.length_cons, endsApart_cons hlength hlines]
    by_cases whole : ending = .cr → (joinLines lines ends).head? ≠ some '\n'
    · rw [List.append_assoc, linesOf_append hline (linesOf_ending whole), List.length_cons]
      refine ⟨by omega, fun happart => ?_⟩
      have hfewer := hlt fun hapart => happart ⟨whole, hapart⟩
      omega
    · obtain ⟨rfl, hhead⟩ := Classical.not_imp.mp whole
      obtain ⟨rest, hrest⟩ := List.head?_eq_some_iff.mp (not_not.mp hhead)
      -- the line feed belongs to the carriage return now, so the empty line is none any more
      have hlf : linesOf (LineEnd.lf.text ++ rest) = [] :: linesOf rest := linesOf_ending nofun
      have hcrlf : linesOf (LineEnd.crlf.text ++ rest) = [] :: linesOf rest := linesOf_ending nofun
      have hpair : line ++ LineEnd.cr.text ++ joinLines lines ends =
          line ++ (LineEnd.crlf.text ++ rest) := by
        rw [hrest]
        simp [LineEnd.text]
      have hfewer : (linesOf rest).length + 1 ≤ lines.length := by
        rwa [hrest, show '\n' :: rest = LineEnd.lf.text ++ rest from rfl, hlf,
          List.length_cons] at hle
      rw [hpair, linesOf_append hline hcrlf, List.length_cons]
      exact ⟨by omega, fun _ => by omega⟩

theorem endsApart_of_length_eq (hlength : lines.length = ends.length + 1)
    (hlines : ∀ line ∈ lines, Unbroken line)
    (h : (linesOf (joinLines lines ends)).length = lines.length) : EndsApart lines ends := by
  by_contra hapart
  exact absurd h ((length_linesOf_joinLines hlength hlines).2 hapart).ne

end JoinLines

/-! ## Ends of a split text -/

namespace SplitAtEnds

variable {text : List Char} {lines : List (List Char)} {ends : List LineEnd}

theorem lineEnds_eq (h : SplitAtEnds text lines ends) : (lineEnds text).map (·.2) = ends := by
  induction h with
  | last h => rw [lineEnds_of_unbroken h, List.map_nil]
  | cons h whole _ ih =>
    rw [lineEnds_cons h whole, List.map_cons, List.map_map, ← ih]
    rfl

/-- Each end stands behind the lines in front of it, and in front of the lines behind it. -/
theorem parts_at (h : SplitAtEnds text lines ends) {k offset : Nat} {ending : LineEnd}
    (hend : (lineEnds text)[k]? = some (offset, ending)) :
    text.take offset = joinLines (lines.take (k + 1)) (ends.take k) ∧
      text.drop (offset + ending.text.length) =
        joinLines (lines.drop (k + 1)) (ends.drop (k + 1)) := by
  induction h generalizing k offset with
  | last h =>
    rw [lineEnds_of_unbroken h] at hend
    cases hend
  | @cons line rest first lines ends h whole hrest ih =>
    rw [lineEnds_cons h whole] at hend
    cases k with
    | zero =>
      cases hend
      obtain ⟨-, -, -, hjoin⟩ := splitAtEnds_iff.mp hrest
      constructor
      · rw [List.append_assoc, List.take_left, List.take_succ_cons, List.take_zero, List.take_zero,
          joinLines, joinLines, List.append_nil]
      · rw [← List.length_append, List.drop_left]
        exact hjoin.symm
    | succ k =>
      rw [List.getElem?_cons_succ, List.getElem?_map, Option.map_eq_some_iff] at hend
      obtain ⟨⟨offset, ending⟩, hend, hmoved⟩ := hend
      obtain ⟨rfl, rfl⟩ := Prod.mk.inj hmoved
      obtain ⟨htake, hdrop⟩ := ih hend
      constructor
      · rw [List.take_length_add_append, htake]
        rfl
      · rw [Nat.add_assoc, List.drop_length_add_append, hdrop]
        rfl

end SplitAtEnds

/-! ## The search for lines -/

/-- The text in front of the first character that ends a line, and what stands behind this end. -/
def cutLine? (text : List Char) : Option (List Char × List Char) :=
  (text.findIdx? fun c => c = '\r' ∨ c = '\n').map fun i =>
    (text.take i, text.drop (i + if ['\r', '\n'] <+: text.drop i then 2 else 1))

/-- Lines that are found, and the text in which others may be. -/
structure LineScan where
  found : List (List Char)
  rest : List Char

namespace LineScan

/-- One round of the search. -/
def round? (scan : LineScan) : Option LineScan :=
  (cutLine? scan.rest).map fun parts => ⟨scan.found ++ [parts.1], parts.2⟩

/-- The search comes to its end after so many rounds, and these are the lines. -/
inductive Runs : Nat → LineScan → List (List Char) → Prop where
  | stop {scan : LineScan} (h : scan.round? = none) : Runs 0 scan (scan.found ++ [scan.rest])
  | round {n : Nat} {scan next : LineScan} {lines : List (List Char)} (h : scan.round? = some next)
    (hnext : Runs n next lines) : Runs (n + 1) scan lines

end LineScan

theorem cutLine?_of_unbroken {line : List Char} (h : Unbroken line) : cutLine? line = none := by
  rw [cutLine?, Option.map_eq_none_iff, List.findIdx?_eq_none_iff]
  exact fun c hc => decide_eq_false (not_or.mpr (h c hc).symm)

theorem cutLine?_cons {line rest : List Char} {ending : LineEnd} (h : Unbroken line)
    (whole : ending = .cr → rest.head? ≠ some '\n') :
    cutLine? (line ++ ending.text ++ rest) = some (line, rest) := by
  have hfind : (line ++ (ending.text ++ rest)).findIdx? (fun c => c = '\r' ∨ c = '\n') =
      some line.length := by
    have hline := Option.map_eq_none_iff.mp (cutLine?_of_unbroken h)
    rw [List.findIdx?_append, hline, Option.none_or]
    cases ending <;> simp [LineEnd.text, List.findIdx?_cons]
  have hlength : (if ['\r', '\n'] <+: ending.text ++ rest then 2 else 1) = ending.text.length := by
    cases ending with
    | crlf => simp [LineEnd.text]
    | lf => simp [LineEnd.text]
    | cr =>
      cases rest with
      | nil => simp [LineEnd.text]
      | cons c rest =>
        have hc : '\n' ≠ c := fun hc => whole rfl (congrArg some hc.symm)
        simp [LineEnd.text, hc]
  rw [List.append_assoc, cutLine?, hfind, Option.map_some, List.take_left, List.drop_left, hlength,
    List.drop_length_add_append, List.drop_left]

theorem SplitAtEnds.runs {text : List Char} {lines : List (List Char)} {ends : List LineEnd}
    (h : SplitAtEnds text lines ends) (found : List (List Char)) :
    LineScan.Runs ends.length ⟨found, text⟩ (found ++ lines) := by
  induction h generalizing found with
  | @last line h =>
    have hstop : LineScan.round? ⟨found, line⟩ = none := by
      rw [LineScan.round?, cutLine?_of_unbroken h, Option.map_none]
    exact .stop hstop
  | @cons line rest ending lines ends h whole _ ih =>
    have hround : LineScan.round? ⟨found, line ++ ending.text ++ rest⟩ =
        some ⟨found ++ [line], rest⟩ := by
      rw [LineScan.round?, cutLine?_cons h whole, Option.map_some]
    rw [List.append_cons]
    exact .round hround (ih (found ++ [line]))

/-! ## Lines of a document -/

/-- **Lines stand between ends of lines.**  No other lines stand between these ends or as many
others, and the search finds them.  Each end has the lines before it on one side and those after it
on the other.  Other ends in the places of these make no difference as long as they stay apart. -/
theorem documentLines_between_ends (text : String) :
    let lines := (documentLines text).map String.toList
    let ends := (lineEnds text.toList).map (·.2)
    (∀ line ∈ lines, Unbroken line) ∧
      lines.length = ends.length + 1 ∧
      joinLines lines ends = text.toList ∧
      (∀ lines' ends', lines'.length = ends'.length + 1 → ends'.length = ends.length →
        (∀ line ∈ lines', Unbroken line) → joinLines lines' ends' = text.toList →
          lines' = lines ∧ ends' = ends) ∧
      LineScan.Runs ends.length ⟨[], text.toList⟩ lines ∧
      (∀ k offset ending, (lineEnds text.toList)[k]? = some (offset, ending) →
        text.toList.take offset = joinLines (lines.take (k + 1)) (ends.take k) ∧
          text.toList.drop (offset + ending.text.length) =
            joinLines (lines.drop (k + 1)) (ends.drop (k + 1))) ∧
      ∀ ends', ends'.length = ends.length →
        (documentLines (String.ofList (joinLines lines ends')) = documentLines text ↔
          EndsApart lines ends') := by
  intro lines ends
  have hlines : linesOf text.toList = lines := by
    simp [lines, documentLines]
  obtain ⟨kinds, hsplit⟩ := exists_splitAtEnds text.toList
  obtain rfl : ends = kinds := hsplit.lineEnds_eq
  rw [hlines] at hsplit
  obtain ⟨hlength, hunbroken, -, hjoin⟩ := splitAtEnds_iff.mp hsplit
  refine ⟨hunbroken, hlength, hjoin, fun lines' ends' hlength' hsame hunbroken' hjoin' => ?_,
    hsplit.runs [], fun k offset ending hend => hsplit.parts_at hend, fun ends' hsame => ?_⟩
  · have hapart : EndsApart lines' ends' := by
      refine endsApart_of_length_eq hlength' hunbroken' ?_
      rw [hjoin', hlines, hlength, hlength', hsame]
    have hsplit' := splitAtEnds_iff.mpr ⟨hlength', hunbroken', hapart, hjoin'⟩
    exact ⟨hsplit'.lines_eq.trans hlines, hsplit'.lineEnds_eq.symm⟩
  · rw [← hsame] at hlength
    have hsplits : documentLines (String.ofList (joinLines lines ends')) = documentLines text ↔
        linesOf (joinLines lines ends') = lines := by
      rw [documentLines, documentLines, String.toList_ofList, hlines]
      exact (List.map_injective_iff.mpr fun _ _ => String.ofList_injective).eq_iff
    rw [hsplits]
    constructor
    · intro h
      exact endsApart_of_length_eq hlength hunbroken (congrArg List.length h)
    · intro h
      exact (splitAtEnds_iff.mpr ⟨hlength, hunbroken, h, rfl⟩).lines_eq.symm

/-- Two lone carriage returns around an empty line, and one that has its line feed. -/
example : lineEnds "a\r\rb\r\n".toList = [(1, .cr), (2, .cr), (4, .crlf)] ∧
    documentLines "a\r\rb\r\n" = ["a", "", "b", ""] := by
  decide +kernel

end MemoHints
