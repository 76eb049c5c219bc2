import MemoHints.Hint.Tooltip

/-!
# Usable details come first

The compiler may give a text or a place of a failure in several places, and any of them may be
absent or useless.  What counts is the first usable one (`firstUsable`), so a look into each place
has to ask whether what it finds is of use.  For places of failures it does.  For texts the question
is asked of the place that was chosen, after the choice: an empty text in the options hides one that
stands outside them (`Hides`), and nothing else does (`showsFirstUsable_iff`).
-/

namespace MemoHints

section FirstUsable

variable {α : Type} (usable : α → Bool)

/-- The first of several places that holds something of use. -/
def firstUsable (places : List (Option α)) : Option α := (places.filterMap id).find? usable

/-- A place that holds nothing of use in front of one that does. -/
def Hides (front back : Option α) : Prop :=
  (∃ x ∈ front, ¬ usable x = true) ∧ ∃ y ∈ back, usable y = true

@[simp] theorem firstUsable_nil : firstUsable usable [] = none := rfl

theorem firstUsable_cons (place : Option α) (places : List (Option α)) :
    firstUsable usable (place :: places) =
      (place.filter usable).or (firstUsable usable places) := by
  cases place with
  | none => rfl
  | some x =>
    rw [firstUsable, List.filterMap_cons_some (f := id) rfl, List.find?_cons, Option.filter_some]
    cases usable x <;> rfl

/-- A choice before the question loses what it hides, and nothing else. -/
theorem filter_or_eq_firstUsable_iff {front back : Option α} :
    (front.or back).filter usable = firstUsable usable [front, back] ↔
      ¬ Hides usable front back := by
  rw [firstUsable_cons, firstUsable_cons, firstUsable_nil, Option.or_none]
  cases front with
  | none => simp [Hides]
  | some x =>
    cases hx : usable x with
    | true => simp [Hides, hx, Option.filter_some_pos hx]
    | false =>
      rw [Option.some_or, Option.filter_some_neg hx, Option.none_or, eq_comm,
        Option.filter_eq_none_iff]
      simp [Hides, hx]

theorem Hides.filter_or {front back : Option α} (h : Hides usable front back) :
    (front.or back).filter usable = none := by
  obtain ⟨⟨x, rfl, hx⟩, -⟩ := h
  simp [Option.filter_some, hx]

end FirstUsable

/-! ## Places of a detail -/

namespace EventDetail

variable (detail : EventDetail)

/-- Where a reason may stand, the more specific place first. -/
def reasonPlaces : List (Option String) := [detail.options.bind (·.reason), detail.reason]

def descriptionPlaces : List (Option String) :=
  [detail.options.bind (·.description), detail.description]

def rangePlaces : List (Option SourceRange) :=
  [(detail.options.bind (·.details.head?)).bind (·.loc), detail.options.bind (·.loc),
    detail.details.head?.bind (·.loc), detail.loc]

/-- What of a detail is of use, if it is put in a tooltip. -/
def usableReason? : Option String := firstUsable (· ≠ "") detail.reasonPlaces

def usableDescription? : Option String := firstUsable (· ≠ "") detail.descriptionPlaces

def usableRange? : Option SourceRange := firstUsable SourceRange.hasPosition detail.rangePlaces

/-- An empty reason of the options in front of one that is not empty. -/
def HidesReason : Prop := Hides (· ≠ "") (detail.options.bind (·.reason)) detail.reason

def HidesDescription : Prop :=
  Hides (· ≠ "") (detail.options.bind (·.description)) detail.description

theorem errorRange?_eq : detail.errorRange? = detail.usableRange? := by
  unfold usableRange? rangePlaces errorRange? ownRange? firstEntryRange?
  simp only [firstUsable_cons, firstUsable_nil, Option.or_none, Option.or_assoc]
  cases detail.options <;> rfl

/-- The details of a failure of which nothing usable is hidden, neither where they are looked up nor
in a tooltip. -/
structure ShowsUsable : Prop where
  reason : detail.reason? = detail.usableReason?
  description : detail.description? = detail.usableDescription?
  range : detail.errorRange? = detail.usableRange?
  reasonSpans : ∀ event : DiagnosticEvent, event.detail = some detail → ∀ filename links,
    [.bold "Reason:", .text " ", .text (detail.usableReason?.getD "Unknown reason")] <+:
      failureSpans event filename links
  descriptionSpans : ∀ event : DiagnosticEvent, event.detail = some detail → ∀ filename links,
    ∀ description ∈ detail.usableDescription?,
      [.paragraphBreak, .text description] <:+: failureSpans event filename links

/-- An event with a usable place has the line that says where it is. -/
theorem placeSpans_suffix {event : DiagnosticEvent} (h : event.detail = some detail)
    (filename : String) (links : LinkOptions) : ∀ range ∈ detail.usableRange?,
      placeSpans event.reason filename links (spanOf range) <:+
        failureSpans event filename links := by
  intro range hrange
  have hspan : event.errorSpan? = some (spanOf range) := by
    rw [DiagnosticEvent.errorSpan?, h, Option.bind_some, errorSpan?, errorRange?_eq, hrange,
      Option.map_some]
  rw [failureSpans, hspan]
  exact List.suffix_append _ _

theorem showsUsable (hreason : ¬ detail.HidesReason) (hdescription : ¬ detail.HidesDescription) :
    detail.ShowsUsable := by
  have hreason : detail.reason? = detail.usableReason? :=
    (filter_or_eq_firstUsable_iff _).mpr hreason
  have hdescription : detail.description? = detail.usableDescription? :=
    (filter_or_eq_firstUsable_iff _).mpr hdescription
  refine ⟨hreason, hdescription, errorRange?_eq detail, fun event h filename links => ?_,
    fun event h filename links description hfound => ?_⟩
  · rw [← hreason, failureSpans, DiagnosticEvent.reason, h, List.append_assoc]
    exact List.prefix_append _ _
  · rw [← hdescription] at hfound
    have hevent : event.description? = some description := by
      rw [DiagnosticEvent.description?, h]
      exact hfound
    rw [failureSpans, hevent]
    exact List.infix_append _ _ _

theorem HidesReason.reason_eq (h : detail.HidesReason) {event : DiagnosticEvent}
    (hdetail : event.detail = some detail) : event.reason = "Unknown reason" := by
  have hnone : detail.reason? = none := Hides.filter_or _ h
  rw [DiagnosticEvent.reason, hdetail, Option.bind_some, hnone, Option.getD_none]

/-- **Only an empty text in the options hides what is usable.**  Then the text that stands outside
them is not found.  A usable place is found in any case, and every tooltip has its line. -/
theorem showsUsable_iff :
    (detail.ShowsUsable ↔ ¬ detail.HidesReason ∧ ¬ detail.HidesDescription) ∧
      detail.errorRange? = detail.usableRange? ∧
      (∀ event : DiagnosticEvent, event.detail = some detail → ∀ filename links,
        ∀ range ∈ detail.usableRange?, placeSpans event.reason filename links (spanOf range) <:+
          failureSpans event filename links) ∧
      (detail.HidesReason → detail.reason? = none ∧
        ∀ event : DiagnosticEvent, event.detail = some detail → event.reason = "Unknown reason") ∧
      (detail.HidesDescription → detail.description? = none) := by
  refine ⟨⟨fun h => ⟨?_, ?_⟩, fun h => detail.showsUsable h.1 h.2⟩, detail.errorRange?_eq,
    fun event h filename links => detail.placeSpans_suffix h filename links,
    fun h => ⟨Hides.filter_or _ h, fun event hdetail => h.reason_eq detail hdetail⟩,
    fun h => Hides.filter_or _ h⟩
  · exact (filter_or_eq_firstUsable_iff _).mp h.reason
  · exact (filter_or_eq_firstUsable_iff _).mp h.description

/-- A reason outside the options, which have an empty one. -/
theorem not_showsUsable : ¬ ∀ detail : EventDetail, detail.ShowsUsable := by
  intro h
  have hreason :=
    (h { reason := some "Mutates props", options := some { reason := some "" } }).reason
  exact absurd hreason (by decide)

end EventDetail

end MemoHints
