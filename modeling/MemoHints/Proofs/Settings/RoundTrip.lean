import MemoHints.Numbers
import MemoHints.Proofs.Results
import MemoHints.Proofs.Settings.Keys

/-!
# Settings in canonical form

Reading leaves no text empty and no count zero: what is empty turns an emoji off and is the default
of a path or a format.  Settings of this form are written in a way that is read back as they are
(`Settings.canonical_form`), so to read, write and read again is to read once.
-/

namespace MemoHints

open Json RecordType

namespace Settings

/-- No text is empty, and a count is a size of 64 bits that is not zero. -/
structure Canonical (settings : Settings) : Prop where
  successEmoji : settings.successEmoji ≠ some ""
  errorEmoji : settings.errorEmoji ≠ some ""
  pluginPath : settings.pluginPath ≠ ""
  hintFormat : settings.hintFormat ≠ ""
  maxConcurrency : ∀ n ∈ settings.maxConcurrency, 0 < n ∧ n < 2 ^ 64

/-! ## What is read -/

theorem emojiOf_ne {fallback : Option String} (h : fallback ≠ some "") (v : Json) :
    emojiOf fallback v ≠ some "" := by
  cases v with
  | null => nofun
  | str s =>
    rw [emojiOf]
    split
    next => nofun
    next hs => exact fun h => hs (Option.some.inj h)
  | bool _ | int _ | float _ | arr _ | obj _ => exact h

theorem textOf_ne {fallback : String} (h : fallback ≠ "") (v : Json) : textOf fallback v ≠ "" := by
  cases v with
  | str s =>
    rw [textOf]
    split
    next => exact h
    next hs => exact hs
  | null | bool _ | int _ | float _ | arr _ | obj _ => exact h

theorem countOf_eq_some_iff {v : Json} {n : Nat} :
    countOf v = some n ↔ v = .nat n ∧ 0 < n ∧ n < 2 ^ 64 := by
  have hsize : lenient readSize v = some n ↔ v = .nat n ∧ n < 2 ^ 64 := by
    rw [lenient_eq, toOption_eq_some_iff]
    cases v with
    | int m =>
      simp only [readSize, readNat, readInt, nat, Json.int.injEq]
      split
      next hbounds =>
        simp only [Except.map, Except.ok.injEq]
        omega
      next hbounds =>
        simp only [Except.map, reduceCtorEq, false_iff]
        omega
    | null | bool _ | float _ | str _ | arr _ | obj _ =>
      simp [readSize, readNat, readInt, nat, Except.map]
  rw [countOf, Option.filter_eq_some_iff, hsize, decide_eq_true_eq]
  exact ⟨fun ⟨⟨hv, hlt⟩, hpos⟩ => ⟨hv, hpos, hlt⟩, fun ⟨hv, hpos, hlt⟩ => ⟨⟨hv, hlt⟩, hpos⟩⟩

theorem canonical_defaults : defaults.Canonical :=
  ⟨by decide, by decide, by decide, by decide, nofun⟩

/-- Whatever the value is, reading it gives a canonical form. -/
theorem canonical_ofJson (v : Json) : (ofJson v).Canonical := by
  unfold ofJson
  split
  next settings hread =>
    refine read_induction canonical_defaults (fun x name w y _ hx hset => ?_) hread
    simp only [recordType] at hset
    split at hset
    all_goals cases hset
    · exact { hx with successEmoji := emojiOf_ne canonical_defaults.successEmoji w }
    · exact { hx with errorEmoji := emojiOf_ne canonical_defaults.errorEmoji w }
    · exact { hx with pluginPath := textOf_ne canonical_defaults.pluginPath w }
    · exact { hx with hintFormat := textOf_ne canonical_defaults.hintFormat w }
    · exact { hx with }
    · exact { hx with }
    · exact { hx with }
    · exact { hx with maxConcurrency := fun n hn => (countOf_eq_some_iff.mp hn).2 }
    · exact hx
  next => exact canonical_defaults

end Settings

/-! ## What is written -/

namespace SettingsKey

/-- The member that is written for a key. -/
def write : (key : SettingsKey) → key.Value → Json
  | .successEmoji, emoji => ofOption .str emoji
  | .errorEmoji, emoji => ofOption .str emoji
  | .pluginPath, path => .str path
  | .hintFormat, format => .str format
  | .anchorFallback, fallback => .str fallback.name
  | .excludeDirs, dirs => ofOption (fun dirs => .arr (dirs.map .str)) dirs
  | .includeExtensions, extensions => ofOption (fun dirs => .arr (dirs.map .str)) extensions
  | .maxConcurrency, count => ofOption nat count

/-- Every key is written. -/
theorem exists_toJson_eq (settings : Settings) :
    ∃ members, settings.toJson = .obj members ∧
      ∀ key : SettingsKey, find? key.name members = some (key.write (key.get settings)) := by
  refine ⟨_, rfl, fun key => ?_⟩
  cases key <;> rfl

theorem emojiOf_ofOption (fallback : Option String) {emoji : Option String} (h : emoji ≠ some "") :
    Settings.emojiOf fallback (ofOption .str emoji).sorted = emoji := by
  cases emoji with
  | none => rfl
  | some s =>
    have hs : s ≠ "" := fun hs => h (congrArg some hs)
    exact if_neg hs

theorem textOf_str (fallback : String) {s : String} (h : s ≠ "") :
    Settings.textOf fallback (Json.str s).sorted = s := if_neg h

theorem fallbackOf_name (unread fallback : AnchorFallback) :
    (AnchorFallback.ofJson? (Json.str fallback.name).sorted).getD unread = fallback := by
  cases fallback <;> rfl

theorem strings?_ofOption (texts : Option (List String)) :
    (ofOption (fun texts => .arr (texts.map .str)) texts).sorted.strings? = texts := by
  cases texts with
  | none => rfl
  | some texts =>
    have hwritten : ofOption (fun texts => .arr (texts.map .str)) (some texts) =
        .arr (texts.map .str) := rfl
    rw [hwritten, sorted_arr, strings?, List.map_map, List.filterMap_map]
    exact congrArg some List.filterMap_some

theorem countOf_ofOption {count : Option Nat} (h : ∀ n ∈ count, 0 < n ∧ n < 2 ^ 64) :
    Settings.countOf (ofOption nat count).sorted = count := by
  cases count with
  | none => rfl
  | some n => exact Settings.countOf_eq_some_iff.mpr ⟨rfl, h n rfl⟩

/-- What is written for a key is read back. -/
theorem read_write (key : SettingsKey) {settings : Settings} (h : settings.Canonical) :
    key.read (key.write (key.get settings)).sorted = key.get settings := by
  cases key with
  | successEmoji => exact emojiOf_ofOption _ h.successEmoji
  | errorEmoji => exact emojiOf_ofOption _ h.errorEmoji
  | pluginPath => exact textOf_str _ h.pluginPath
  | hintFormat => exact textOf_str _ h.hintFormat
  | anchorFallback => exact fallbackOf_name _ _
  | excludeDirs => exact strings?_ofOption _
  | includeExtensions => exact strings?_ofOption _
  | maxConcurrency => exact countOf_ofOption h.maxConcurrency

end SettingsKey

/-- **Settings have a canonical form.**  Whatever is read is in it, and what is in it is read back
as it was written. -/
theorem Settings.canonical_form :
    (∀ v, (ofJson v).Canonical) ∧
    (∀ settings : Settings, settings.Canonical → ofJson settings.toJson = settings) ∧
    ∀ v, ofJson (ofJson v).toJson = ofJson v := by
  have hback : ∀ settings : Settings, settings.Canonical → ofJson settings.toJson = settings := by
    intro settings h
    obtain ⟨members, hmembers, hwritten⟩ := SettingsKey.exists_toJson_eq settings
    refine SettingsKey.eq_of_get_eq fun key => ?_
    rw [hmembers, key.get_ofJson, hwritten]
    exact key.read_write h
  exact ⟨canonical_ofJson, hback, fun v => hback _ (canonical_ofJson v)⟩

/-- Hints that are turned off, and an empty list, in settings that are a list of their values. -/
theorem Settings.offAndEmpty_read_back :
    let settings : Settings :=
      { successEmoji := none, errorEmoji := none, pluginPath := "p", anchorFallback := .lineStart
        excludeDirs := some [], maxConcurrency := some 4 }
    settings.Canonical ∧ ofJson settings.toJson = settings ∧
      ofJson (.arr [.null, .str "", .str "p", .bool true, .str "lineStart", .arr [.nat 0], .str "",
        .nat 4]) = settings := by
  intro settings
  have hcanonical : settings.Canonical :=
    ⟨nofun, nofun, by decide, by decide, fun n hn => by cases hn; decide⟩
  exact ⟨hcanonical, canonical_form.2.1 settings hcanonical, rfl⟩

end MemoHints
