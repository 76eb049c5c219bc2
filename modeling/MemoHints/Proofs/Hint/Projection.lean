import Mathlib.Data.List.Forall2
import Mathlib.Data.List.Induction
import Mathlib.Data.List.Infix
import MemoHints.Hint.Basic
import MemoHints.Proofs.Text.Search

/-!
# Hints account for events

Where a hint stands, and whether there is one, is decided by the place that an event gives its
function (`Shows`, `positionAt`).  The failures of one place are a class, and the groups that
failures are put into are these classes, one for each place in the order in which places first
appear (`groupByFunction_eq`).  So failures of one place stay together, and none is lost or shown
twice.

## Places are compared as they are

A place may lack its end, its columns or everything.  Two failures share a hint when their places
are equal in all parts, and not already when they stand on one line.
-/

namespace MemoHints

/-! ## What a place decides -/

/-- The line of a place, counted from one.  A place that names no line is on the first. -/
def lineOf (place : Option SourceRange) : Nat := (place.bind SourceRange.startLine?).getD 1

/-- The line above a place. -/
def lineAbove? (lines : List String) (place : Option SourceRange) : Option String :=
  match lineOf place with
  | line + 2 => lines[line]?
  | _ => none

/-- Whether a document shows hints at a place: it has this line, and the line above does not turn
them off. -/
def Shows (lines : List String) (place : Option SourceRange) : Prop :=
  0 < lineOf place ∧ lineOf place ≤ lines.length ∧
    ∀ above ∈ lineAbove? lines place, ¬ disableComment.toList <:+: above.toList

instance (lines : List String) : DecidablePred (Shows lines) := fun place =>
  inferInstanceAs (Decidable (0 < lineOf place ∧ lineOf place ≤ lines.length ∧
    ∀ above ∈ lineAbove? lines place, ¬ disableComment.toList <:+: above.toList))

/-- Where the hint of a place stands. -/
def positionAt (lines : List String) (fallback : AnchorFallback) (place : Option SourceRange) :
    Position :=
  ⟨lineOf place - 1, anchorColumn (lines.getD (lineOf place - 1) "") fallback⟩

/-- Blanks around a line do not matter to the comment, which has letters at both ends. -/
theorem contains_disableComment_iff (text : List Char) :
    Text.contains disableComment.toList (Text.trim text) = true ↔
      disableComment.toList <:+: text := by
  have hends : (∀ c ∈ disableComment.toList.head?, ¬ Text.isBlank c = true) ∧
      ∀ c ∈ disableComment.toList.getLast?, ¬ Text.isBlank c = true := by
    simp [disableComment, Text.isBlank]
  rw [Text.contains_iff_infix, Text.infix_trim_iff hends.1 hends.2]

theorem isDisabled_iff {lines : List String} {place : Option SourceRange} {line : Nat}
    (h : lineOf place = line + 1) : isDisabled lines line = true ↔
      ∃ above ∈ lineAbove? lines place, disableComment.toList <:+: above.toList := by
  cases line with
  | zero => simp [isDisabled, lineAbove?, h]
  | succ above =>
    simp only [isDisabled, lineAbove?, h]
    cases lines[above]? with
    | none => simp
    | some text => simp [contains_disableComment_iff]

/-- An event has a point in a document that shows its place. -/
theorem locate_eq (lines : List String) (event : DiagnosticEvent) (fallback : AnchorFallback) :
    locate lines event fallback =
      if Shows lines event.fnLoc then some (positionAt lines fallback event.fnLoc) else none := by
  have hline : event.functionLine?.getD 1 = lineOf event.fnLoc := rfl
  unfold locate
  rw [hline]
  cases hplace : lineOf event.fnLoc with
  | zero => simp [Shows, hplace]
  | succ line =>
    cases htext : lines[line]? with
    | none =>
      have hlength : lines.length ≤ line := List.getElem?_eq_none_iff.mp htext
      have hshows : ¬ Shows lines event.fnLoc := fun h => by
        have hle := h.2.1
        omega
      simp [htext, hshows]
    | some text =>
      have hlength : line < lines.length := (List.getElem?_eq_some_iff.mp htext).1
      have hshows : Shows lines event.fnLoc ↔ ¬ isDisabled lines line = true := by
        rw [isDisabled_iff hplace]
        simp only [Shows, hplace, not_exists, not_and]
        exact ⟨fun h => h.2.2, fun h => ⟨Nat.succ_pos _, hlength, h⟩⟩
      cases hdisabled : isDisabled lines line with
      | true => simp [htext, hshows, hdisabled]
      | false => simp [htext, hshows, hdisabled, positionAt, hplace]

/-! ## Classes of failures -/

/-- The places of events, in the order in which each first appears. -/
def placesOf (events : List DiagnosticEvent) : List (Option SourceRange) :=
  (events.map (·.fnLoc)).eraseDups

/-- The events of a place, in their order. -/
def eventsAt (events : List DiagnosticEvent) (place : Option SourceRange) : List DiagnosticEvent :=
  events.filter (·.fnLoc = place)

theorem mem_placesOf {events : List DiagnosticEvent} {place : Option SourceRange} :
    place ∈ placesOf events ↔ ∃ event ∈ events, event.fnLoc = place := by
  simp [placesOf]

/-- A later event brings its place, if that is a new one. -/
theorem placesOf_append_singleton (events : List DiagnosticEvent) (event : DiagnosticEvent) :
    placesOf (events ++ [event]) =
      placesOf events ++ if event.fnLoc ∈ placesOf events then [] else [event.fnLoc] := by
  have hmem : event.fnLoc ∈ placesOf events ↔ event.fnLoc ∈ events.map (·.fnLoc) :=
    List.mem_eraseDups
  simp only [hmem]
  rw [placesOf, List.map_append, List.eraseDups_append, List.map_singleton, ← placesOf]
  congr 1
  by_cases hseen : event.fnLoc ∈ events.map (·.fnLoc)
  · have hnone : [event.fnLoc].removeAll (events.map (·.fnLoc)) = [] :=
      List.filter_eq_nil_iff.mpr (by simpa using hseen)
    rw [if_pos hseen, hnone]
    rfl
  · have hone : [event.fnLoc].removeAll (events.map (·.fnLoc)) = [event.fnLoc] :=
      List.filter_eq_self.mpr (by simpa using hseen)
    rw [if_neg hseen, hone]
    rfl

theorem nodup_placesOf (events : List DiagnosticEvent) : (placesOf events).Nodup := by
  induction events using List.reverseRecOn with
  | nil => exact List.nodup_nil
  | append_singleton events event ih =>
    rw [placesOf_append_singleton]
    split
    next => simpa using ih
    next hnew =>
      refine List.nodup_append.mpr ⟨ih, by simp, ?_⟩
      intro place hplace other hother hsame
      rw [List.mem_singleton.mp hother] at hsame
      exact hnew (hsame ▸ hplace)

theorem eventsAt_append_singleton (events : List DiagnosticEvent) (event : DiagnosticEvent)
    (place : Option SourceRange) : eventsAt (events ++ [event]) place =
      eventsAt events place ++ if event.fnLoc = place then [event] else [] := by
  rw [eventsAt, List.filter_append, ← eventsAt]
  congr 1
  by_cases h : event.fnLoc = place <;> simp [h]

theorem eventsAt_eq_nil_iff {events : List DiagnosticEvent} {place : Option SourceRange} :
    eventsAt events place = [] ↔ place ∉ placesOf events := by
  rw [eventsAt, List.filter_eq_nil_iff, mem_placesOf]
  simp

theorem fnLoc_of_head?_eventsAt {events : List DiagnosticEvent} {place : Option SourceRange}
    {first : DiagnosticEvent} (h : (eventsAt events place).head? = some first) :
    first.fnLoc = place :=
  of_decide_eq_true (List.mem_filter.mp (List.mem_of_head? h)).2

/-- An event joins the class of its place, or starts one after the others. -/
theorem addToGroups_map {events : List DiagnosticEvent} (event : DiagnosticEvent)
    {places : List (Option SourceRange)} (hsub : ∀ place ∈ places, place ∈ placesOf events)
    (hnodup : places.Nodup) : addToGroups event (places.map (eventsAt events)) =
      places.map (eventsAt (events ++ [event])) ++
        if event.fnLoc ∈ places then [] else [[event]] := by
  induction places with
  | nil => rfl
  | cons place places ih =>
    obtain ⟨hplace, hrest⟩ := List.forall_mem_cons.mp hsub
    obtain ⟨hfresh, hnodup⟩ := List.nodup_cons.mp hnodup
    obtain ⟨first, hfirst⟩ : ∃ first, (eventsAt events place).head? = some first := by
      rw [← Option.isSome_iff_exists, List.isSome_head?, ne_eq, eventsAt_eq_nil_iff, not_not]
      exact hplace
    rw [List.map_cons, addToGroups, hfirst, List.map_cons, eventsAt_append_singleton]
    simp only [fnLoc_of_head?_eventsAt hfirst, List.mem_cons]
    by_cases hsame : place = event.fnLoc
    · subst hsame
      -- no other class gains the event
      have hothers : places.map (eventsAt (events ++ [event])) = places.map (eventsAt events) := by
        refine List.map_congr_left fun other hother => ?_
        have hne : event.fnLoc ≠ other := fun h => hfresh (h ▸ hother)
        rw [eventsAt_append_singleton, if_neg hne, List.append_nil]
      simp [hothers]
    · have hsame' : event.fnLoc ≠ place := Ne.symm hsame
      simp [hsame, hsame', ih hrest hnodup]

/-- **The groups are the classes of the places.** -/
theorem groupByFunction_eq (failed : List DiagnosticEvent) :
    groupByFunction failed = (placesOf failed).map (eventsAt failed) := by
  induction failed using List.reverseRecOn with
  | nil => rfl
  | append_singleton failed event ih =>
    have hfold : groupByFunction (failed ++ [event]) =
        addToGroups event (groupByFunction failed) := by
      simp only [groupByFunction, List.foldl_append, List.foldl_cons, List.foldl_nil]
    rw [hfold, ih, addToGroups_map event (fun _ => id) (nodup_placesOf failed),
      placesOf_append_singleton, List.map_append]
    congr 1
    split
    next => rfl
    next hnew =>
      rw [List.map_singleton, eventsAt_append_singleton, eventsAt_eq_nil_iff.mpr hnew, if_pos rfl]
      rfl

theorem flatten_addToGroups (event : DiagnosticEvent) (groups : List (List DiagnosticEvent)) :
    (addToGroups event groups).flatten.Perm (groups.flatten ++ [event]) := by
  induction groups with
  | nil => exact .refl _
  | cons group groups ih =>
    have hlater : (group :: addToGroups event groups).flatten.Perm
        ((group :: groups).flatten ++ [event]) := by
      simp only [List.flatten_cons, List.append_assoc]
      exact ih.append_left group
    rw [addToGroups]
    split
    next first hfirst =>
      split
      next =>
        simp only [List.flatten_cons, List.append_assoc]
        exact List.perm_append_comm.append_left group
      next => exact hlater
    next => exact hlater

/-- Every event is in one class. -/
theorem flatMap_eventsAt (events : List DiagnosticEvent) :
    ((placesOf events).flatMap (eventsAt events)).Perm events := by
  rw [List.flatMap_def, ← groupByFunction_eq]
  induction events using List.reverseRecOn with
  | nil => exact .refl _
  | append_singleton events event ih =>
    simp only [groupByFunction, List.foldl_append, List.foldl_cons, List.foldl_nil]
    exact (flatten_addToGroups event _).trans (ih.append_right [event])

section Kept

variable (q : Option SourceRange → Prop) [DecidablePred q] (events : List DiagnosticEvent)

theorem placesOf_filter :
    placesOf (events.filter (q ·.fnLoc)) = (placesOf events).filter (q ·) := by
  induction events using List.reverseRecOn with
  | nil => rfl
  | append_singleton events event ih =>
    rw [List.filter_append, placesOf_append_singleton, List.filter_append, ← ih]
    by_cases hq : q event.fnLoc
    · have hmem : event.fnLoc ∈ placesOf (events.filter (q ·.fnLoc)) ↔
          event.fnLoc ∈ placesOf events := by
        rw [ih, List.mem_filter]
        simp [hq]
      rw [List.filter_singleton, decide_eq_true hq, cond_true, placesOf_append_singleton]
      simp only [hmem]
      split <;> simp [hq]
    · have hnone :
          (if event.fnLoc ∈ placesOf events then [] else [event.fnLoc]).filter (q ·) = [] := by
        split <;> simp [hq]
      rw [hnone]
      simp [hq]

/-- A class is kept or dropped as a whole. -/
theorem eventsAt_filter {place : Option SourceRange} (h : q place) :
    eventsAt (events.filter (q ·.fnLoc)) place = eventsAt events place := by
  rw [eventsAt, List.filter_filter, eventsAt]
  refine List.filter_congr fun event _ => ?_
  by_cases hplace : event.fnLoc = place
  · simp [hplace, h]
  · simp [hplace]

end Kept

/-! ## Tooltips -/

theorem renderSpans_append (markup : Markup) (spans spans' : List Span) :
    renderSpans markup (spans ++ spans') =
      renderSpans markup spans ++ renderSpans markup spans' := by
  rw [renderSpans, List.map_append, String.join_append]
  rfl

theorem renderSpans_cons (markup : Markup) (span : Span) (spans : List Span) :
    renderSpans markup (span :: spans) = span.render markup ++ renderSpans markup spans := by
  rw [renderSpans, List.map_cons, String.join_cons]
  rfl

/-- What a tooltip says about one failure. -/
def sectionText (config : HintConfig) (event : DiagnosticEvent) : String :=
  renderSpans config.markup (failureSpans event config.filename config.links)

/-- What the tooltip of failures says: a header, and a section for each of them. -/
def failuresText (config : HintConfig) (emoji name : String) (events : List DiagnosticEvent) :
    String :=
  renderSpans config.markup (headline emoji name " hasn't been memoized by React Compiler.") ++
    Span.paragraphBreak.render config.markup ++
    (Span.divider.render config.markup).intercalate (events.map (sectionText config))

theorem renderSpans_dividers (config : HintConfig) (first : DiagnosticEvent)
    (rest : List DiagnosticEvent) :
    sectionText config first ++ renderSpans config.markup (rest.flatMap fun event =>
        .divider :: failureSpans event config.filename config.links) =
      (Span.divider.render config.markup).intercalate
        ((first :: rest).map (sectionText config)) := by
  induction rest generalizing first with
  | nil => simp [renderSpans]
  | cons next rest ih =>
    rw [List.flatMap_cons, renderSpans_append, renderSpans_cons, List.map_cons, List.map_cons,
      String.intercalate_cons_cons, ← List.map_cons, ← ih next, ← sectionText]
    simp only [String.append_assoc]

theorem renderSpans_failuresSpans (config : HintConfig) (emoji name : String)
    (first : DiagnosticEvent) (rest : List DiagnosticEvent) :
    renderSpans config.markup
        (failuresSpans emoji name (first :: rest) config.filename config.links) =
      failuresText config emoji name (first :: rest) := by
  rw [failuresSpans, failureSections, List.append_assoc, renderSpans_append, renderSpans_append,
    renderSpans_append, ← sectionText, renderSpans_dividers]
  simp [failuresText, renderSpans, String.append_assoc]

/-! ## The hints of a document -/

/-- The hint of a compiled component. -/
structure MarksCompiled (lines : List String) (config : HintConfig) (emoji : String)
    (event : DiagnosticEvent) (hint : Hint) : Prop where
  position : hint.position = positionAt lines config.anchorFallback event.fnLoc
  label : hint.label = config.label emoji event.componentName .compiled
  tooltip : hint.tooltip = ⟨config.markup,
    renderSpans config.markup (successSpans emoji event.componentName config.links)⟩

/-- The hint of the failures at a place.  The first of them gives it its name. -/
structure FoldsFailures (lines : List String) (config : HintConfig) (emoji : String)
    (failed : List DiagnosticEvent) (place : Option SourceRange) (hint : Hint) : Prop where
  position : hint.position = positionAt lines config.anchorFallback place
  named : ∃ first, (eventsAt failed place).head? = some first ∧
    hint.label = config.label emoji first.componentName .failed ∧
    hint.tooltip = ⟨config.markup,
      failuresText config emoji first.componentName (eventsAt failed place)⟩

/-- What is made of the members that are kept, one by one. -/
theorem forall₂_filterMap {α β : Type} {f : α → Option β} {r : α → β → Prop} (q : α → Prop)
    [DecidablePred q] {l : List α} (hkept : ∀ a ∈ l, q a → ∃ b, f a = some b ∧ r a b)
    (hdropped : ∀ a ∈ l, ¬ q a → f a = none) :
    List.Forall₂ r (l.filter (q ·)) (l.filterMap f) := by
  induction l with
  | nil => exact .nil
  | cons a l ih =>
    obtain ⟨hkeep, hkept⟩ := List.forall_mem_cons.mp hkept
    obtain ⟨hdrop, hdropped⟩ := List.forall_mem_cons.mp hdropped
    by_cases hq : q a
    · obtain ⟨b, hb, hr⟩ := hkeep hq
      have hfilter : (a :: l).filter (q ·) = a :: l.filter (q ·) := by simp [hq]
      rw [hfilter, List.filterMap_cons_some hb]
      exact .cons hr (ih hkept hdropped)
    · have hfilter : (a :: l).filter (q ·) = l.filter (q ·) := by simp [hq]
      rw [hfilter, List.filterMap_cons_none (hdrop hq)]
      exact ih hkept hdropped

section Project

variable (lines : List String) (config : HintConfig) (emoji : String)

theorem forall₂_successHint? (successful : List DiagnosticEvent) :
    List.Forall₂ (MarksCompiled lines config emoji) (successful.filter (Shows lines ·.fnLoc))
      (successful.filterMap (successHint? lines config emoji)) := by
  refine forall₂_filterMap (fun event : DiagnosticEvent => Shows lines event.fnLoc) ?_ ?_
  · intro event _ hshows
    rw [successHint?, locate_eq, if_pos hshows]
    exact ⟨_, rfl, rfl, rfl, rfl⟩
  · intro event _ hshows
    rw [successHint?, locate_eq, if_neg hshows]
    rfl

theorem forall₂_failureHint? (failed : List DiagnosticEvent) :
    List.Forall₂ (FoldsFailures lines config emoji failed)
      (placesOf (failed.filter (Shows lines ·.fnLoc)))
      ((groupByFunction failed).filterMap (failureHint? lines config emoji)) := by
  rw [groupByFunction_eq, List.filterMap_map, placesOf_filter]
  have hclass : ∀ place ∈ placesOf failed, ∃ first rest, eventsAt failed place = first :: rest ∧
      first.fnLoc = place := by
    intro place hplace
    obtain ⟨first, rest, hevents⟩ :=
      List.exists_cons_of_ne_nil fun h => eventsAt_eq_nil_iff.mp h hplace
    exact ⟨first, rest, hevents, fnLoc_of_head?_eventsAt (by rw [hevents]; rfl)⟩
  refine forall₂_filterMap (Shows lines) ?_ ?_
  · intro place hplace hshows
    obtain ⟨first, rest, hevents, rfl⟩ := hclass place hplace
    rw [Function.comp_apply, hevents, failureHint?, locate_eq, if_pos hshows]
    refine ⟨_, rfl, rfl, first, by rw [hevents]; rfl, rfl, ?_⟩
    rw [hevents, ← renderSpans_failuresSpans]
  · intro place hplace hshows
    obtain ⟨first, rest, hevents, rfl⟩ := hclass place hplace
    rw [Function.comp_apply, hevents, failureHint?, locate_eq, if_neg hshows]
    rfl

theorem status_of_successHint? {event : DiagnosticEvent} {hint : Hint}
    (h : successHint? lines config emoji event = some hint) : hint.status = .compiled := by
  obtain ⟨position, -, rfl⟩ := Option.map_eq_some_iff.mp h
  rfl

theorem status_of_failureHint? {group : List DiagnosticEvent} {hint : Hint}
    (h : failureHint? lines config emoji group = some hint) : hint.status = .failed := by
  cases group with
  | nil => cases h
  | cons first rest =>
    obtain ⟨position, -, rfl⟩ := Option.map_eq_some_iff.mp h
    rfl

end Project

/-- The hints that say of a status. -/
def hintsOf (status : HintStatus) (hints : List Hint) : List Hint :=
  hints.filter (·.status = status)

section Accounts

variable (text : String) (result : CompileResult) (config : HintConfig)

/-- The hints of compiled components, if these are shown. -/
def compiledHints : List Hint :=
  match config.successEmoji with
  | some emoji => result.successful.filterMap (successHint? (documentLines text) config emoji)
  | none => []

/-- The hints of failures, if these are shown. -/
def failedHints : List Hint :=
  match config.errorEmoji with
  | some emoji =>
    (groupByFunction result.failed).filterMap (failureHint? (documentLines text) config emoji)
  | none => []

theorem project_eq :
    project text result config =
      compiledHints text result config ++ failedHints text result config :=
  rfl

theorem status_compiledHints :
    ∀ hint ∈ compiledHints text result config, hint.status = .compiled := by
  unfold compiledHints
  intro hint hhint
  split at hhint
  next emoji _ =>
    obtain ⟨event, -, hevent⟩ := List.mem_filterMap.mp hhint
    exact status_of_successHint? _ _ _ hevent
  next => cases hhint

theorem status_failedHints : ∀ hint ∈ failedHints text result config, hint.status = .failed := by
  unfold failedHints
  intro hint hhint
  split at hhint
  next emoji _ =>
    obtain ⟨group, -, hgroup⟩ := List.mem_filterMap.mp hhint
    exact status_of_failureHint? _ _ _ hgroup
  next => cases hhint

theorem hintsOf_compiled_project :
    hintsOf .compiled (project text result config) = compiledHints text result config := by
  have hcompiled : (compiledHints text result config).filter (·.status = .compiled) = _ :=
    List.filter_eq_self.mpr fun hint hhint => decide_eq_true (status_compiledHints _ _ _ hint hhint)
  have hfailed : (failedHints text result config).filter (·.status = .compiled) = [] :=
    List.filter_eq_nil_iff.mpr fun hint hhint => by simp [status_failedHints _ _ _ hint hhint]
  rw [hintsOf, project_eq, List.filter_append, hcompiled, hfailed, List.append_nil]

theorem hintsOf_failed_project :
    hintsOf .failed (project text result config) = failedHints text result config := by
  have hcompiled : (compiledHints text result config).filter (·.status = .failed) = [] :=
    List.filter_eq_nil_iff.mpr fun hint hhint => by simp [status_compiledHints _ _ _ hint hhint]
  have hfailed : (failedHints text result config).filter (·.status = .failed) = _ :=
    List.filter_eq_self.mpr fun hint hhint => decide_eq_true (status_failedHints _ _ _ hint hhint)
  rw [hintsOf, project_eq, List.filter_append, hcompiled, hfailed, List.nil_append]

/-- What the hints of a document say of the events. -/
structure ProjectsEvents (emoji : String) : Prop where
  /-- Compiled components come first. -/
  order : project text result config = hintsOf .compiled (project text result config) ++
    hintsOf .failed (project text result config)
  /-- Each compiled component that is shown has a hint of its own. -/
  compiled : match config.successEmoji with
    | some emoji => List.Forall₂ (MarksCompiled (documentLines text) config emoji)
        (result.successful.filter (Shows (documentLines text) ·.fnLoc))
        (hintsOf .compiled (project text result config))
    | none => hintsOf .compiled (project text result config) = []
  /-- Each place of failures that is shown has one hint. -/
  failed : List.Forall₂ (FoldsFailures (documentLines text) config emoji result.failed)
    (placesOf (result.failed.filter (Shows (documentLines text) ·.fnLoc)))
    (hintsOf .failed (project text result config))
  /-- These places share out the failures that are shown. -/
  shared : ((placesOf (result.failed.filter (Shows (documentLines text) ·.fnLoc))).flatMap
    (eventsAt result.failed)).Perm (result.failed.filter (Shows (documentLines text) ·.fnLoc))
  /-- Hints of one status can be turned off without changing the others. -/
  withoutErrors : project text result { config with errorEmoji := none } =
    hintsOf .compiled (project text result config)
  withoutSuccesses : project text result { config with successEmoji := none } =
    hintsOf .failed (project text result config)

/-- **Hints neither lose nor repeat events.** -/
theorem project_accounts {emoji : String} (h : config.errorEmoji = some emoji) :
    ProjectsEvents text result config emoji := by
  have hfailed : failedHints text result config = (groupByFunction result.failed).filterMap
      (failureHint? (documentLines text) config emoji) := by
    rw [failedHints, h]
  refine ⟨?_, ?_, ?_, ?_, ?_, ?_⟩
  · rw [hintsOf_compiled_project, hintsOf_failed_project, project_eq]
  · rw [hintsOf_compiled_project]
    unfold compiledHints
    cases config.successEmoji with
    | none => rfl
    | some success => exact forall₂_successHint? _ _ _ _
  · rw [hintsOf_failed_project, hfailed]
    exact forall₂_failureHint? _ _ _ _
  · refine .trans (.of_eq ?_) (flatMap_eventsAt _)
    refine List.flatMap_congr fun place hplace => ?_
    rw [placesOf_filter] at hplace
    exact (eventsAt_filter _ _ (of_decide_eq_true (List.mem_filter.mp hplace).2)).symm
  · rw [hintsOf_compiled_project, project_eq, failedHints, List.append_nil]
    rfl
  · rw [hintsOf_failed_project, project_eq, compiledHints, List.nil_append]
    rfl

end Accounts

/-- Failures of two places one in between the other, and failures that no line shows. -/
theorem interleaved_failures_folded :
    let place : SourceRange := ⟨some { line := some 2 }, none⟩
    let first : DiagnosticEvent := { fnLoc := some place, fnName := some "A" }
    let placeless : DiagnosticEvent := {}
    let second : DiagnosticEvent := { fnLoc := some place, fnName := some "B" }
    let muted : DiagnosticEvent := { fnLoc := some ⟨some { line := some 4 }, none⟩ }
    let outside : DiagnosticEvent := { fnLoc := some ⟨some { line := some 0 }, none⟩ }
    let text := "const x\r\nfunction A() {}\n// react-compiler-marker-disable\nfunction C() {}"
    let failed := [first, muted, placeless, outside, second]
    let config : HintConfig := ⟨none, some "!", "\x7bname\x7d", .html, .lineEnd, {}, ""⟩
    List.Forall₂ (FoldsFailures (documentLines text) config "!" failed) [some place, none]
        (hintsOf .failed (project text ⟨[], failed⟩ config)) ∧
      eventsAt failed (some place) = [first, second] := by
  intro place first placeless second muted outside text failed config
  have hplaces : placesOf (failed.filter (Shows (documentLines text) ·.fnLoc)) =
      [some place, none] := by decide +kernel
  have hshown : config.errorEmoji = some "!" := rfl
  have hfailed := (project_accounts text ⟨[], failed⟩ config hshown).failed
  rw [hplaces] at hfailed
  exact ⟨hfailed, rfl⟩

end MemoHints
