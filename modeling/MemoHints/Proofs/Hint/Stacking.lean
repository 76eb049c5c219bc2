import Mathlib.Data.List.Nodup
import MemoHints.Proofs.Hint.Projection

/-!
# Hints on one line

Failures are folded by place, and a hint stands on the line of its place.  So two hints of failures
stand on one line exactly when two different places name that line, as those of two functions on one
line do, or those of one function that are not equally complete (`failed_unstacked_iff`).  Then they
even stand at one point.
-/

namespace MemoHints

/-- Hints of which no two stand on one line. -/
def Unstacked (hints : List Hint) : Prop := (hints.map (·.position.line)).Nodup

instance : DecidablePred Unstacked := fun hints =>
  inferInstanceAs (Decidable (hints.map (·.position.line)).Nodup)

/-- What two lists of related members show in common. -/
theorem map_eq_of_forall₂ {α β γ : Type} {r : α → β → Prop} {f : α → γ} {g : β → γ} {l : List α}
    {l' : List β} (h : List.Forall₂ r l l') (hfg : ∀ a b, r a b → f a = g b) :
    l.map f = l'.map g := by
  induction h with
  | nil => rfl
  | cons hr _ ih => rw [List.map_cons, List.map_cons, hfg _ _ hr, ih]

variable (text : String) (result : CompileResult) (config : HintConfig)

/-- The points of the hints of failures are those of the places that are shown. -/
theorem positions_failed {emoji : String} (h : config.errorEmoji = some emoji) :
    (hintsOf .failed (project text result config)).map (·.position) =
      (placesOf (result.failed.filter (Shows (documentLines text) ·.fnLoc))).map
        (positionAt (documentLines text) config.anchorFallback) := by
  have hfolds := forall₂_failureHint? (documentLines text) config emoji result.failed
  rw [hintsOf_failed_project, failedHints, h]
  exact (map_eq_of_forall₂ hfolds fun _ _ hfold => hfold.position.symm).symm

theorem hintsOf_failed_of_none (h : config.errorEmoji = none) :
    hintsOf .failed (project text result config) = [] := by
  rw [hintsOf_failed_project, failedHints, h]

/-- Places that are shown have lines of their own when their hints do. -/
theorem nodup_lines_iff (lines : List String) (fallback : AnchorFallback)
    (failed : List DiagnosticEvent) :
    (((placesOf (failed.filter (Shows lines ·.fnLoc))).map (positionAt lines fallback)).map
        (·.line)).Nodup ↔
      ∀ a ∈ failed, ∀ b ∈ failed, Shows lines a.fnLoc → Shows lines b.fnLoc →
        lineOf a.fnLoc = lineOf b.fnLoc → a.fnLoc = b.fnLoc := by
  rw [List.map_map, List.nodup_map_iff_inj_on (nodup_placesOf _)]
  simp only [mem_placesOf, List.mem_filter, decide_eq_true_eq]
  constructor
  · intro h a ha b hb hashows hbshows hline
    refine h _ ⟨a, ⟨ha, hashows⟩, rfl⟩ _ ⟨b, ⟨hb, hbshows⟩, rfl⟩ ?_
    simp only [Function.comp_apply, positionAt, hline]
  · rintro h _ ⟨a, ⟨ha, hashows⟩, rfl⟩ _ ⟨b, ⟨hb, hbshows⟩, rfl⟩ hline
    refine h a ha b hb hashows hbshows ?_
    -- lines of hints count from zero, those of places from one
    have hapos := hashows.1
    have hbpos := hbshows.1
    simp only [Function.comp_apply, positionAt] at hline
    omega

/-- Hints of failures on one line stand at one point. -/
theorem position_eq_of_line_eq {a b : Hint}
    (ha : a ∈ hintsOf .failed (project text result config))
    (hb : b ∈ hintsOf .failed (project text result config))
    (h : a.position.line = b.position.line) : a.position = b.position := by
  cases hemoji : config.errorEmoji with
  | none =>
    rw [hintsOf_failed_of_none _ _ _ hemoji] at ha
    cases ha
  | some emoji =>
    have hpositions := positions_failed text result config hemoji
    have hplace : ∀ hint ∈ hintsOf .failed (project text result config), ∃ place,
        positionAt (documentLines text) config.anchorFallback place = hint.position := by
      intro hint hhint
      have hmem := List.mem_map_of_mem (f := (·.position)) hhint
      rw [hpositions] at hmem
      obtain ⟨place, -, hplace⟩ := List.mem_map.mp hmem
      exact ⟨place, hplace⟩
    obtain ⟨p, hp⟩ := hplace a ha
    obtain ⟨q, hq⟩ := hplace b hb
    rw [← hp, ← hq] at h ⊢
    simp only [positionAt] at h ⊢
    rw [h]

/-- **Hints of failures share a line exactly when places do.** -/
theorem failed_unstacked_iff :
    (Unstacked (hintsOf .failed (project text result config)) ↔
      (config.errorEmoji.isSome = true → ∀ a ∈ result.failed, ∀ b ∈ result.failed,
        Shows (documentLines text) a.fnLoc → Shows (documentLines text) b.fnLoc →
          lineOf a.fnLoc = lineOf b.fnLoc → a.fnLoc = b.fnLoc)) ∧
      ∀ a ∈ hintsOf .failed (project text result config),
        ∀ b ∈ hintsOf .failed (project text result config),
          a.position.line = b.position.line → a.position = b.position := by
  refine ⟨?_, fun a ha b hb => position_eq_of_line_eq text result config ha hb⟩
  cases hemoji : config.errorEmoji with
  | none => simp [Unstacked, hintsOf_failed_of_none _ _ _ hemoji]
  | some emoji =>
    have hlines : (hintsOf .failed (project text result config)).map (·.position.line) =
        ((hintsOf .failed (project text result config)).map (·.position)).map (·.line) := by
      rw [List.map_map]
      rfl
    rw [Unstacked, hlines, positions_failed _ _ _ hemoji, nodup_lines_iff]
    simp

/-- One function, once with its end and once without. -/
theorem not_failed_unstacked : ¬ ∀ text result config,
    Unstacked (hintsOf .failed (project text result config)) := by
  intro h
  have hstacked := h "function List() {}"
    ⟨[], [{ fnLoc := some ⟨some { line := some 1, column := some 0 },
        some { line := some 1, column := some 18 }⟩ },
      { fnLoc := some ⟨some { line := some 1, column := some 0 }, none⟩ }]⟩
    ⟨none, some "🚫", "", .markdown, .lineEnd, {}, ""⟩
  exact absurd hstacked (by decide +kernel)

end MemoHints
