import MemoHints.Proofs.Document.Anchor
import MemoHints.Proofs.Document.Lines
import MemoHints.Proofs.Hint.Projection

/-!
# Hints stand inside their document

The compiler counts lines from one, a search in a line finds characters, and an editor counts units
of UTF-16.  A hint stands at a point that the editor has all the same: on one of the lines that it
counts, in front of the blanks at the end of that line, and between two characters (`InDocument`).

## Events and hints

A hint of a compiled component is made from one event, a hint of failures from all those of one
place (`MadeFrom`), so they all give the function the line on which the hint stands.
-/

namespace MemoHints

open Text (isBlank trimEnd units16 utf16 InsidePair)

/-! ## Points of a document -/

/-- A point of a document that has these lines. -/
structure InDocument (lines : List (List Char)) (position : Position) : Prop where
  line : position.line < lines.length
  /-- Whichever blanks are taken from the end of the line, it stands in front of them. -/
  character : ∀ front blanks, lines[position.line]? = some (front ++ blanks) →
    (∀ c ∈ blanks, isBlank c = true) → position.character ≤ (utf16 front).length
  whole : ∀ line, lines[position.line]? = some line → ¬ InsidePair (utf16 line) position.character

theorem inDocument_anchor {lines : List (List Char)} {line : List Char} {number : Nat}
    (h : lines[number]? = some line) (fallback : AnchorFallback) :
    InDocument lines ⟨number, anchorColumn (String.ofList line) fallback⟩ := by
  have hfront := beforeAnchor_prefix line fallback
  refine ⟨(List.getElem?_eq_some_iff.mp h).1, fun front blanks hline hblanks => ?_,
    fun other hline => ?_⟩
  · obtain rfl : line = front ++ blanks := Option.some.inj (h.symm.trans hline)
    rw [anchorColumn_ofList, Text.length_utf16]
    exact units16_le_of_prefix (hfront.trans (Text.trimEnd_append_prefix front hblanks))
  · obtain rfl : line = other := Option.some.inj (h.symm.trans hline)
    have htrimmed := Text.trimEnd_append_prefix line (List.forall_mem_nil _)
    rw [List.append_nil] at htrimmed
    obtain ⟨back, hback⟩ := hfront.trans htrimmed
    have hwhole := Text.not_insidePair (beforeAnchor line fallback) back
    rwa [hback, ← anchorColumn_ofList] at hwhole

/-- A text is large enough for both numbers of a point in it. -/
theorem InDocument.le_length_utf16 {text : List Char} {lines : List (List Char)}
    {ends : List LineEnd} {position : Position} (h : InDocument lines position)
    (hsplit : SplitAtEnds text lines ends) :
    position.line ≤ (utf16 text).length ∧ position.character ≤ (utf16 text).length := by
  obtain ⟨hlines, hunits⟩ := hsplit.units16_bounds
  have hline := h.line
  have hshown : lines[position.line]? = some (lines[position.line] ++ []) := by
    rw [List.append_nil, List.getElem?_eq_getElem]
  have hcharacter := h.character _ [] hshown (List.forall_mem_nil _)
  rw [Text.length_utf16] at hcharacter ⊢
  exact ⟨by omega, hcharacter.trans (hunits _ (List.getElem_mem hline))⟩

/-- The line on which an event puts its function is that many lines below the first. -/
def StandsOnLine (event : DiagnosticEvent) (line : Nat) : Prop :=
  (∀ n ∈ event.functionLine?, line + 1 = n) ∧ (event.functionLine? = none → line = 0)

theorem inDocument_of_locate {text : String} {event : DiagnosticEvent} {fallback : AnchorFallback}
    {position : Position} (h : locate (documentLines text) event fallback = some position) :
    InDocument (linesOf text.toList) position ∧ StandsOnLine event position.line := by
  unfold locate at h
  split at h
  next => cases h
  next line hplace =>
    split at h
    next => cases h
    next shown hshown =>
      split at h
      next => cases h
      next =>
        cases h
        rw [documentLines, List.getElem?_map, Option.map_eq_some_iff] at hshown
        obtain ⟨characters, hline, rfl⟩ := hshown
        refine ⟨inDocument_anchor hline fallback, fun n hn => ?_, fun hnone => ?_⟩
        · rw [Option.mem_def.mp hn, Option.getD_some] at hplace
          exact hplace.symm
        · rw [hnone, Option.getD_none] at hplace
          exact (Nat.succ.inj hplace).symm

/-! ## What hints are made from -/

section MadeFrom

variable (text : String) (result : CompileResult) (config : HintConfig)

/-- The events that a hint of the document is made from. -/
inductive MadeFrom (hint : Hint) : List DiagnosticEvent → Prop where
  | compiled {emoji : String} {event : DiagnosticEvent} (shown : config.successEmoji = some emoji)
    (mem : event ∈ result.successful)
    (made : successHint? (documentLines text) config emoji event = some hint) :
    MadeFrom hint [event]
  | failed {emoji : String} {place : Option SourceRange} (shown : config.errorEmoji = some emoji)
    (made : failureHint? (documentLines text) config emoji (eventsAt result.failed place) =
      some hint) : MadeFrom hint (eventsAt result.failed place)

theorem mem_project_iff {hint : Hint} :
    hint ∈ project text result config ↔ ∃ events, MadeFrom text result config hint events := by
  rw [project_eq, List.mem_append]
  constructor
  · rintro (h | h)
    · unfold compiledHints at h
      split at h
      next emoji hemoji =>
        obtain ⟨event, hevent, hmade⟩ := List.mem_filterMap.mp h
        exact ⟨_, .compiled hemoji hevent hmade⟩
      next => cases h
    · unfold failedHints at h
      split at h
      next emoji hemoji =>
        obtain ⟨group, hgroup, hmade⟩ := List.mem_filterMap.mp h
        rw [groupByFunction_eq] at hgroup
        obtain ⟨place, -, rfl⟩ := List.mem_map.mp hgroup
        exact ⟨_, .failed hemoji hmade⟩
      next => cases h
  · rintro ⟨events, h⟩
    cases h with
    | @compiled _ event shown mem made =>
      refine .inl ?_
      rw [compiledHints, shown]
      exact List.mem_filterMap.mpr ⟨event, mem, made⟩
    | @failed _ place shown made =>
      -- a place without failures has no hint
      have hplace : place ∈ placesOf result.failed := by
        by_contra hnone
        rw [eventsAt_eq_nil_iff.mpr hnone] at made
        cases made
      refine .inr ?_
      rw [failedHints, shown, groupByFunction_eq]
      exact List.mem_filterMap.mpr ⟨_, List.mem_map_of_mem hplace, made⟩

/-- All events of a hint place it. -/
theorem MadeFrom.locate_eq {hint : Hint} {events : List DiagnosticEvent}
    (h : MadeFrom text result config hint events) : events ≠ [] ∧ ∀ event ∈ events,
      locate (documentLines text) event config.anchorFallback = some hint.position := by
  cases h with
  | compiled _ _ made =>
    obtain ⟨position, hposition, rfl⟩ := Option.map_eq_some_iff.mp made
    exact ⟨List.cons_ne_nil _ _, List.forall_mem_singleton.mpr hposition⟩
  | @failed _ place _ made =>
    have hplace : ∀ event ∈ eventsAt result.failed place, event.fnLoc = place := fun event hevent =>
      of_decide_eq_true (List.mem_filter.mp hevent).2
    cases hevents : eventsAt result.failed place with
    | nil =>
      rw [hevents] at made
      cases made
    | cons first rest =>
      rw [hevents] at made hplace
      obtain ⟨position, hposition, rfl⟩ := Option.map_eq_some_iff.mp made
      refine ⟨List.cons_ne_nil _ _, fun event hevent => ?_⟩
      -- only the place of an event counts
      rw [MemoHints.locate_eq, hplace first List.mem_cons_self] at hposition
      rw [MemoHints.locate_eq, hplace event hevent]
      exact hposition

/-- **Hints stand inside their document.**  An editor splits the text into lines in one way, and
each hint is at a point between two characters of one of these lines, the line on which its events
put their function.  So both numbers of a point are as small as the text is. -/
theorem hints_inside :
    ∃ lines ends, SplitAtEnds text.toList lines ends ∧
      (∀ lines' ends', SplitAtEnds text.toList lines' ends' → lines' = lines) ∧
      (∀ hint, hint ∈ project text result config ↔
        ∃ events, MadeFrom text result config hint events) ∧
      ∀ hint ∈ project text result config, InDocument lines hint.position ∧
        hint.position.line ≤ (utf16 text.toList).length ∧
        hint.position.character ≤ (utf16 text.toList).length ∧
        ∀ events, MadeFrom text result config hint events →
          events ≠ [] ∧ ∀ event ∈ events, StandsOnLine event hint.position.line := by
  obtain ⟨ends, hsplit⟩ := exists_splitAtEnds text.toList
  refine ⟨_, ends, hsplit, fun _ _ h => h.lines_eq, fun _ => mem_project_iff _ _ _,
    fun hint hhint => ?_⟩
  have hplaced : ∀ events, MadeFrom text result config hint events → events ≠ [] ∧
      ∀ event ∈ events, InDocument (linesOf text.toList) hint.position ∧
        StandsOnLine event hint.position.line := fun events h =>
    ⟨h.locate_eq.1, fun event hevent => inDocument_of_locate (h.locate_eq.2 event hevent)⟩
  obtain ⟨events, hmade⟩ := (mem_project_iff _ _ _).mp hhint
  obtain ⟨event, hevent⟩ := List.exists_mem_of_ne_nil _ (hplaced events hmade).1
  have hinside := ((hplaced events hmade).2 event hevent).1
  obtain ⟨hline, hcharacter⟩ := hinside.le_length_utf16 hsplit
  refine ⟨hinside, hline, hcharacter, fun events h => ⟨(hplaced events h).1, ?_⟩⟩
  exact fun event hevent => ((hplaced events h).2 event hevent).2

/-- Lines that end in carriage returns, and pairs of units in front of the hints. -/
example :
    let eventAt line : DiagnosticEvent := { fnLoc := some ⟨some { line := some line }, none⟩ }
    let text := "👍\r/*👍*/ export function A()\r\n👍\t\u00a0"
    let config : HintConfig := ⟨some "", some "", "", .markdown, .lineEnd, {}, ""⟩
    (project text ⟨[eventAt 2, eventAt 3, eventAt 4], [{}]⟩ config).map (·.position) =
      [⟨1, 22⟩, ⟨2, 2⟩, ⟨0, 2⟩] := by
  decide +kernel

end MadeFrom

end MemoHints
