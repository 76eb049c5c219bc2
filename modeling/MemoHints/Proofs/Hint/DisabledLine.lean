import MemoHints.Proofs.Document.Insertion
import MemoHints.Proofs.Hint.Projection

/-!
# A comment that turns off the hints of one line

Whoever puts the comment above a line moves this line and all below it one down, and a compiler that
is run on the new document moves the places of functions with them.  Of the lines of the old
document only that one has the comment above it now: the lines above it have not changed, and each
line below it still has its old neighbour (`locate_lowered`).  Places that were equal stay equal and
others stay different, so failures share a hint as before (`groupByFunction_map`).
-/

namespace MemoHints

/-! ## One line down -/

/-- Where a line is after one is put in at `inserted`.  This holds of lines that count from zero,
save the one at `inserted` itself, and of lines that count from one. -/
def lowered (inserted line : Nat) : Nat := if inserted < line then line + 1 else line

section Lowered

variable (inserted : Nat)

theorem lowered_injective : Function.Injective (lowered inserted) := by
  intro a b h
  unfold lowered at h
  split at h <;> split at h <;> omega

def SourcePoint.lowered (point : SourcePoint) : SourcePoint :=
  { point with line := point.line.map (MemoHints.lowered inserted) }

def SourceRange.lowered (range : SourceRange) : SourceRange :=
  ⟨range.start.map (·.lowered inserted), range.finish.map (·.lowered inserted)⟩

/-- An event whose function has moved.  Where a failure is does not change. -/
def DiagnosticEvent.lowered (event : DiagnosticEvent) : DiagnosticEvent :=
  { event with fnLoc := event.fnLoc.map (·.lowered inserted) }

def CompileResult.lowered (result : CompileResult) : CompileResult :=
  ⟨result.successful.map (·.lowered inserted), result.failed.map (·.lowered inserted)⟩

/-- A point of the document, unless it is on the line that gets the comment. -/
def Position.lowered? (position : Position) : Option Position :=
  if position.line = inserted then none
  else some ⟨MemoHints.lowered inserted position.line, position.character⟩

/-- A hint that stays what it is, a line further down if the comment is above it.  There is none on
the line that gets the comment. -/
def Hint.lowered? (hint : Hint) : Option Hint :=
  (hint.position.lowered? inserted).map fun position => { hint with position }

theorem SourcePoint.lowered_injective : Function.Injective (SourcePoint.lowered inserted) := by
  intro a b h
  obtain ⟨hline, hcolumn, hindex⟩ := SourcePoint.mk.inj h
  have hline : a.line = b.line := Option.map_injective (MemoHints.lowered_injective inserted) hline
  cases a
  cases b
  rw [SourcePoint.mk.injEq]
  exact ⟨hline, hcolumn, hindex⟩

theorem SourceRange.lowered_injective : Function.Injective (SourceRange.lowered inserted) := by
  intro a b h
  have hpoints := Option.map_injective (SourcePoint.lowered_injective inserted)
  obtain ⟨hstart, hfinish⟩ := SourceRange.mk.inj h
  cases a
  cases b
  rw [SourceRange.mk.injEq]
  exact ⟨hpoints hstart, hpoints hfinish⟩

theorem DiagnosticEvent.fnLoc_lowered_eq_iff (a b : DiagnosticEvent) :
    (a.lowered inserted).fnLoc = (b.lowered inserted).fnLoc ↔ a.fnLoc = b.fnLoc :=
  (Option.map_injective (SourceRange.lowered_injective inserted)).eq_iff

theorem DiagnosticEvent.functionLine?_lowered (event : DiagnosticEvent) :
    (event.lowered inserted).functionLine? =
      event.functionLine?.map (MemoHints.lowered inserted) := by
  obtain ⟨_, _, fnLoc, _, _⟩ := event
  rcases fnLoc with _ | ⟨_ | _, _⟩ <;> rfl

end Lowered

/-! ## Which lines the comment turns off -/

section Lines

variable (lines : List String) (comment : String) {inserted line : Nat}

theorem isDisabled_insertIdx_of_lt (h : line < inserted) :
    isDisabled (lines.insertIdx inserted comment) line = isDisabled lines line := by
  cases line with
  | zero => rfl
  | succ above =>
    rw [isDisabled, isDisabled, List.getElem?_insertIdx_of_lt (Nat.lt_of_succ_lt h)]

theorem isDisabled_insertIdx_of_gt (h : inserted < line) :
    isDisabled (lines.insertIdx inserted comment) (line + 1) = isDisabled lines line := by
  cases line with
  | zero => cases h
  | succ above => rw [isDisabled, isDisabled, List.getElem?_insertIdx_of_gt h, Nat.add_sub_cancel]

theorem isDisabled_insertIdx_self (hline : inserted ≤ lines.length)
    (h : disableComment.toList <:+: comment.toList) :
    isDisabled (lines.insertIdx inserted comment) (inserted + 1) = true := by
  simp only [isDisabled, List.getElem?_insertIdx_self, if_pos hline]
  exact (contains_disableComment_iff comment.toList).mpr h

variable (fallback : AnchorFallback)

/-- Where the hint of a function that starts on a line stands, if the document shows one. -/
def pointOn? (line : Nat) : Option Position :=
  lines[line]?.bind fun text =>
    if isDisabled lines line then none else some ⟨line, anchorColumn text fallback⟩

theorem locate_eq_pointOn? {event : DiagnosticEvent} (h : event.functionLine? = some (line + 1)) :
    locate lines event fallback = pointOn? lines fallback line := by
  rw [locate, h, Option.getD_some, pointOn?]
  dsimp only
  cases lines[line]? <;> rfl

theorem pointOn?_insertIdx_of_lt (h : line < inserted) :
    pointOn? (lines.insertIdx inserted comment) fallback line =
      (pointOn? lines fallback line).bind (·.lowered? inserted) := by
  have hlowered : lowered inserted line = line := if_neg (Nat.not_lt.mpr h.le)
  rw [pointOn?, pointOn?, List.getElem?_insertIdx_of_lt h, isDisabled_insertIdx_of_lt _ _ h]
  cases lines[line]? with
  | none => rfl
  | some text => cases isDisabled lines line <;> simp [Position.lowered?, hlowered, h.ne]

/-- The line itself has the comment above it now. -/
theorem pointOn?_insertIdx_self (hline : inserted ≤ lines.length)
    (hcomment : disableComment.toList <:+: comment.toList) :
    pointOn? (lines.insertIdx inserted comment) fallback (inserted + 1) =
      (pointOn? lines fallback inserted).bind (·.lowered? inserted) := by
  rw [pointOn?, pointOn?, isDisabled_insertIdx_self _ _ hline hcomment]
  cases lines[inserted]? with
  | none => simp
  | some text => cases isDisabled lines inserted <;> simp [Position.lowered?]

theorem pointOn?_insertIdx_of_gt (h : inserted < line) :
    pointOn? (lines.insertIdx inserted comment) fallback (line + 1) =
      (pointOn? lines fallback line).bind (·.lowered? inserted) := by
  have hlowered : lowered inserted line = line + 1 := if_pos h
  rw [pointOn?, pointOn?, List.getElem?_insertIdx_of_gt (Nat.lt_succ_of_lt h), Nat.succ_sub_one,
    isDisabled_insertIdx_of_gt _ _ h]
  cases lines[line]? with
  | none => rfl
  | some text => cases isDisabled lines line <;> simp [Position.lowered?, hlowered, h.ne']

/-- **Only the line below the comment loses its points.** -/
theorem locate_lowered (hline : inserted ≤ lines.length)
    (hcomment : disableComment.toList <:+: comment.toList) {event : DiagnosticEvent}
    (hplaced : event.functionLine?.isSome = true) :
    locate (lines.insertIdx inserted comment) (event.lowered inserted) fallback =
      (locate lines event fallback).bind (·.lowered? inserted) := by
  obtain ⟨number, hold⟩ := Option.isSome_iff_exists.mp hplaced
  have hnew : (event.lowered inserted).functionLine? = some (lowered inserted number) := by
    rw [event.functionLine?_lowered, hold, Option.map_some]
  cases number with
  | zero =>
    -- no line has this number, before or after
    rw [locate, locate, hold, hnew]
    rfl
  | succ line =>
    rw [locate_eq_pointOn? _ _ hold]
    rcases Nat.lt_trichotomy line inserted with habove | rfl | hbelow
    · have hnumber : lowered inserted (line + 1) = line + 1 := if_neg (Nat.not_lt.mpr habove)
      rw [locate_eq_pointOn? _ _ (hnumber ▸ hnew), pointOn?_insertIdx_of_lt _ _ _ habove]
    · have hnumber : lowered line (line + 1) = line + 1 + 1 := if_pos (Nat.lt_succ_self line)
      rw [locate_eq_pointOn? _ _ (hnumber ▸ hnew), pointOn?_insertIdx_self _ _ _ hline hcomment]
    · have hnumber : lowered inserted (line + 1) = line + 1 + 1 := if_pos (Nat.lt_succ_of_lt hbelow)
      rw [locate_eq_pointOn? _ _ (hnumber ▸ hnew), pointOn?_insertIdx_of_gt _ _ _ hbelow]

end Lines

/-! ## Failures of one function -/

section Groups

variable {f : DiagnosticEvent → DiagnosticEvent}
  (hf : ∀ a b, (f a).fnLoc = (f b).fnLoc ↔ a.fnLoc = b.fnLoc)

include hf

theorem addToGroups_map_map (event : DiagnosticEvent) (groups : List (List DiagnosticEvent)) :
    addToGroups (f event) (groups.map (·.map f)) = (addToGroups event groups).map (·.map f) := by
  induction groups with
  | nil => rfl
  | cons group groups ih =>
    rw [List.map_cons, addToGroups, addToGroups, List.head?_map]
    cases group.head? with
    | none => simp [ih]
    | some first =>
      simp only [Option.map_some, hf first event]
      split
      next => simp
      next => simp [ih]

/-- Events that are changed so that their places stay equal or different are grouped as before. -/
theorem groupByFunction_map (failed : List DiagnosticEvent) :
    groupByFunction (failed.map f) = (groupByFunction failed).map (·.map f) := by
  induction failed using List.reverseRecOn with
  | nil => rfl
  | append_singleton failed event ih =>
    simp only [groupByFunction, List.map_append, List.map_cons, List.map_nil, List.foldl_append,
      List.foldl_cons, List.foldl_nil] at ih ⊢
    rw [ih, addToGroups_map_map hf]

end Groups

theorem mem_of_mem_group {failed group : List DiagnosticEvent} (h : group ∈ groupByFunction failed)
    {event : DiagnosticEvent} (hevent : event ∈ group) : event ∈ failed := by
  rw [groupByFunction_eq] at h
  obtain ⟨place, -, rfl⟩ := List.mem_map.mp h
  exact (List.mem_filter.mp hevent).1

/-! ## The hints of the new document -/

/-- What becomes of each member becomes of what is made of all. -/
theorem filterMap_map_eq {α β : Type} {f : α → α} {make make' : α → Option β} {g : β → Option β}
    {l : List α} (h : ∀ a ∈ l, make' (f a) = (make a).bind g) :
    (l.map f).filterMap make' = (l.filterMap make).filterMap g := by
  rw [List.filterMap_map, List.filterMap_filterMap]
  exact List.filterMap_congr h

section Hints

variable (lines : List String) (config : HintConfig) (emoji : String) {comment : String}
  {inserted : Nat}

theorem componentName_lowered (event : DiagnosticEvent) :
    (event.lowered inserted).componentName = event.componentName := rfl

theorem failureSpans_lowered (event : DiagnosticEvent) (filename : String) (links : LinkOptions) :
    failureSpans (event.lowered inserted) filename links = failureSpans event filename links := rfl

/-- What a tooltip says of failures does not depend on where their function is. -/
theorem failuresSpans_lowered (name : String) (events : List DiagnosticEvent) (filename : String)
    (links : LinkOptions) :
    failuresSpans emoji name (events.map (·.lowered inserted)) filename links =
      failuresSpans emoji name events filename links := by
  cases events with
  | nil => rfl
  | cons event events =>
    simp only [List.map_cons, failuresSpans, failureSections, failureSpans_lowered,
      List.flatMap_map]

variable (hline : inserted ≤ lines.length)
  (hcomment : disableComment.toList <:+: comment.toList)

include hline hcomment

theorem successHint?_lowered {event : DiagnosticEvent}
    (hplaced : event.functionLine?.isSome = true) :
    successHint? (lines.insertIdx inserted comment) config emoji (event.lowered inserted) =
      (successHint? lines config emoji event).bind (·.lowered? inserted) := by
  rw [successHint?, successHint?, locate_lowered _ _ _ hline hcomment hplaced]
  cases locate lines event config.anchorFallback <;> rfl

theorem failureHint?_lowered {group : List DiagnosticEvent}
    (hplaced : ∀ event ∈ group, event.functionLine?.isSome = true) :
    failureHint? (lines.insertIdx inserted comment) config emoji
        (group.map (·.lowered inserted)) =
      (failureHint? lines config emoji group).bind (·.lowered? inserted) := by
  cases group with
  | nil => rfl
  | cons first rest =>
    have hfirst := hplaced first List.mem_cons_self
    rw [List.map_cons, failureHint?, failureHint?, locate_lowered _ _ _ hline hcomment hfirst,
      componentName_lowered, ← List.map_cons, failuresSpans_lowered]
    cases locate lines first config.anchorFallback <;> rfl

theorem compiledHints_lowered {successful : List DiagnosticEvent}
    (hplaced : ∀ event ∈ successful, event.functionLine?.isSome = true) :
    (successful.map (·.lowered inserted)).filterMap
        (successHint? (lines.insertIdx inserted comment) config emoji) =
      (successful.filterMap (successHint? lines config emoji)).filterMap (·.lowered? inserted) :=
  filterMap_map_eq fun event hevent =>
    successHint?_lowered lines config emoji hline hcomment (hplaced event hevent)

theorem failedHints_lowered {failed : List DiagnosticEvent}
    (hplaced : ∀ event ∈ failed, event.functionLine?.isSome = true) :
    (groupByFunction (failed.map (·.lowered inserted))).filterMap
        (failureHint? (lines.insertIdx inserted comment) config emoji) =
      ((groupByFunction failed).filterMap (failureHint? lines config emoji)).filterMap
        (·.lowered? inserted) := by
  rw [groupByFunction_map (DiagnosticEvent.fnLoc_lowered_eq_iff inserted)]
  exact filterMap_map_eq fun group hgroup => failureHint?_lowered lines config emoji hline hcomment
    fun event hevent => hplaced event (mem_of_mem_group hgroup hevent)

end Hints

/-- **A comment hides the hints of one line.**  The hints above this line are what they were, those
below it are one line further down, and there are no others. -/
theorem comment_hides_one_line (text : String) (result : CompileResult) (config : HintConfig)
    {line : Nat} (hline : line < (documentLines text).length) {comment : String}
    (hwhole : Unbroken comment.toList) (hcomment : disableComment.toList <:+: comment.toList)
    (hsuccessful : ∀ event ∈ result.successful, event.functionLine?.isSome = true)
    (hfailed : ∀ event ∈ result.failed, event.functionLine?.isSome = true) :
    project (insertDocumentLine comment line text) (result.lowered line) config =
      (project text result config).filterMap (·.lowered? line) := by
  have hne : comment.toList ≠ [] := by
    intro hnil
    rw [hnil] at hcomment
    exact absurd (List.infix_nil.mp hcomment) (by decide)
  rw [project, project, documentLines_insertLine hwhole hne hline, List.filterMap_append]
  congr 1
  · cases config.successEmoji with
    | none => rfl
    | some emoji => exact compiledHints_lowered _ config emoji hline.le hcomment hsuccessful
  · cases config.errorEmoji with
    | none => rfl
    | some emoji => exact failedHints_lowered _ config emoji hline.le hcomment hfailed

/-- The comment comes in after a lone carriage return, above a line with one compiled component and
two failures of another.  The hints on the first line and on the last two stay. -/
theorem comment_after_carriage_return :
    let eventAt line name : DiagnosticEvent :=
      { fnLoc := some ⟨some { line := some line }, some { line := some 4 }⟩, fnName := some name }
    let text := "const a\rfunction B() {}\r\n👍 const D\nfunction E() {}"
    let result : CompileResult :=
      ⟨[eventAt 1 "a", eventAt 2 "c"], [eventAt 2 "B", eventAt 3 "D", eventAt 2 "B", eventAt 4 "E"]⟩
    let config : HintConfig := ⟨some "", some "", "\x7bname\x7d", .html, .lineEnd, {}, ""⟩
    let comment := "\t// react-compiler-marker-disable"
    insertDocumentLine comment 1 text =
      "const a\r\t// react-compiler-marker-disable\nfunction B() {}\r\n👍 const D\nfunction E() {}" ∧
      (project text result config).map (fun hint => (hint.label, hint.position)) =
        [("a", ⟨0, 5⟩), ("c", ⟨1, 8⟩), ("B", ⟨1, 8⟩), ("D", ⟨2, 8⟩), ("E", ⟨3, 8⟩)] ∧
      (project (insertDocumentLine comment 1 text) (result.lowered 1) config).map
          (fun hint => (hint.label, hint.position)) =
        [("a", ⟨0, 5⟩), ("D", ⟨3, 8⟩), ("E", ⟨4, 8⟩)] := by
  intro eventAt text result config comment
  have hline : 1 < (documentLines text).length := by decide +kernel
  have hwhole : Unbroken comment.toList := by simp [Unbroken, comment]
  have hcomment : disableComment.toList <:+: comment.toList := by decide +kernel
  have hhidden := comment_hides_one_line text result config hline hwhole hcomment
    (by simp [result, eventAt, DiagnosticEvent.functionLine?, SourceRange.startLine?])
    (by simp [result, eventAt, DiagnosticEvent.functionLine?, SourceRange.startLine?])
  refine ⟨by decide +kernel, by decide +kernel, ?_⟩
  rw [hhidden]
  decide +kernel

end MemoHints
