import Mathlib.Data.List.InsertIdx
import MemoHints.Proofs.Document.Lines

/-!
# One more line in a document

A line that is put in front of another becomes one of the lines of the document, and the others stay
as they are (`documentLines_insertLine`).  It comes to stand between two ends of lines, so all there
is to see is that it does not part a carriage return from its line feed, nor give one to a carriage
return that ends a line alone.
-/

namespace MemoHints

/-- How many characters stand in front of a line.  Lines count from zero. -/
def lineStart : Nat → List Char → Nat
  | 0, _ => 0
  | _ + 1, [] => 0
  | n + 1, '\r' :: '\n' :: rest => lineStart n rest + 2
  | n + 1, c :: rest => lineStart (if c = '\n' ∨ c = '\r' then n else n + 1) rest + 1

/-- The text with `new` and a line feed at the start of a line. -/
def insertLine (new : List Char) (n : Nat) (text : List Char) : List Char :=
  text.take (lineStart n text) ++ new ++ '\n' :: text.drop (lineStart n text)

section LineStart

variable {line rest : List Char} (n : Nat)

theorem lineStart_line (h : Unbroken line) (text : List Char) :
    lineStart (n + 1) (line ++ text) = line.length + lineStart (n + 1) text := by
  induction line with
  | nil => simp
  | cons c line ih =>
    obtain ⟨hc, hline⟩ := List.forall_mem_cons.mp h
    rw [List.cons_append, lineStart, if_neg (not_or.mpr hc), ih hline, List.length_cons]
    · omega
    · simp [hc.2]

theorem lineStart_ending {ending : LineEnd} (whole : ending = .cr → rest.head? ≠ some '\n') :
    lineStart (n + 1) (ending.text ++ rest) = ending.text.length + lineStart n rest := by
  cases ending with
  | crlf => exact Nat.add_comm _ _
  | lf => exact Nat.add_comm _ _
  | cr =>
    cases rest with
    | nil =>
      rw [LineEnd.text, List.singleton_append, lineStart, if_pos (.inr rfl)]
      · exact Nat.add_comm _ _
      · simp
    | cons c rest =>
      have hc : c ≠ '\n' := fun hc => whole rfl (congrArg some hc)
      rw [LineEnd.text, List.singleton_append, lineStart, if_pos (.inr rfl)]
      · exact Nat.add_comm _ _
      · simp [hc]

end LineStart

section InsertLine

variable {new : List Char}

theorem insertLine_zero (text : List Char) :
    insertLine new 0 text = new ++ LineEnd.lf.text ++ text := by
  simp [insertLine, lineStart, LineEnd.text]

/-- A whole line in front is passed over. -/
theorem insertLine_succ {line rest : List Char} (h : Unbroken line) {ending : LineEnd}
    (whole : ending = .cr → rest.head? ≠ some '\n') (n : Nat) :
    insertLine new (n + 1) (line ++ ending.text ++ rest) =
      line ++ ending.text ++ insertLine new n rest := by
  have hstart : lineStart (n + 1) (line ++ ending.text ++ rest) =
      (line ++ ending.text).length + lineStart n rest := by
    rw [List.append_assoc, lineStart_line n h, lineStart_ending n whole, List.length_append,
      Nat.add_assoc]
  rw [insertLine, hstart, List.take_length_add_append, List.drop_length_add_append, insertLine]
  simp only [List.append_assoc]

/-- A text begins as before, or with the new line. -/
theorem head?_insertLine (hnew : Unbroken new) (hne : new ≠ []) {text : List Char}
    (h : text.head? ≠ some '\n') (n : Nat) : (insertLine new n text).head? ≠ some '\n' := by
  obtain ⟨c, new, rfl⟩ := List.exists_cons_of_ne_nil hne
  have hc : c ≠ '\n' := (List.forall_mem_cons.mp hnew).1.1
  rw [insertLine]
  cases htake : text.take (lineStart n text) with
  | nil => simpa using hc
  | cons d front =>
    have hd : text.head? = some d := by
      have hhead := congrArg List.head? htake
      rw [List.head?_take] at hhead
      split at hhead
      next => cases hhead
      next => exact hhead
    simpa [hd] using h

theorem SplitAtEnds.insertLine (hnew : Unbroken new) (hne : new ≠ []) {text : List Char}
    {lines : List (List Char)} {ends : List LineEnd} (h : SplitAtEnds text lines ends) {n : Nat}
    (hn : n < lines.length) :
    SplitAtEnds (insertLine new n text) (lines.insertIdx n new) (ends.insertIdx n .lf) := by
  induction h generalizing n with
  | @last line h =>
    obtain rfl : n = 0 := Nat.lt_one_iff.mp hn
    rw [insertLine_zero]
    exact .cons hnew nofun (.last h)
  | @cons line rest ending lines ends h whole hrest ih =>
    cases n with
    | zero =>
      rw [insertLine_zero]
      exact .cons hnew nofun (.cons h whole hrest)
    | succ n =>
      rw [insertLine_succ h whole, List.insertIdx_succ_cons, List.insertIdx_succ_cons]
      exact .cons h (fun hcr => head?_insertLine hnew hne (whole hcr) n)
        (ih (Nat.lt_of_succ_lt_succ hn))

theorem linesOf_insertLine (hnew : Unbroken new) (hne : new ≠ []) {text : List Char} {n : Nat}
    (hn : n < (linesOf text).length) :
    linesOf (insertLine new n text) = (linesOf text).insertIdx n new := by
  obtain ⟨ends, hsplit⟩ := exists_splitAtEnds text
  exact (hsplit.insertLine hnew hne hn).lines_eq.symm

end InsertLine

/-- The document with one more line. -/
def insertDocumentLine (new : String) (n : Nat) (text : String) : String :=
  String.ofList (insertLine new.toList n text.toList)

theorem documentLines_insertLine {new : String} (hnew : Unbroken new.toList)
    (hne : new.toList ≠ []) {text : String} {n : Nat} (hn : n < (documentLines text).length) :
    documentLines (insertDocumentLine new n text) = (documentLines text).insertIdx n new := by
  rw [documentLines, List.length_map] at hn
  rw [documentLines, insertDocumentLine, String.toList_ofList, linesOf_insertLine hnew hne hn,
    List.map_insertIdx, String.ofList_toList, documentLines]

end MemoHints
