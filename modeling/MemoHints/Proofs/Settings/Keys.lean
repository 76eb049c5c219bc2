import MemoHints.Proofs.Json.Records
import MemoHints.Settings

/-!
# Settings key by key

Each of the settings is read from the member of its own key and from nothing else
(`SettingsKey.get_ofJson`).  So a value that is not of its kind takes only its own setting back to
the default, and an object is never given up as a whole.

## Why no member can spoil the others

Every key takes every value, so reading has no errors that could end it, and what is put under one
key commutes with what is read under the others (`SettingsKey.field`).
-/

namespace MemoHints

open Json RecordType

/-- What can be set. -/
inductive SettingsKey where
  | successEmoji
  | errorEmoji
  | pluginPath
  | hintFormat
  | anchorFallback
  | excludeDirs
  | includeExtensions
  | maxConcurrency
deriving DecidableEq

namespace SettingsKey

/-- The key in an object. -/
def name : SettingsKey → String
  | .successEmoji => "successEmoji"
  | .errorEmoji => "errorEmoji"
  | .pluginPath => "babelPluginPath"
  | .hintFormat => "hintFormat"
  | .anchorFallback => "anchorFallback"
  | .excludeDirs => "excludeDirs"
  | .includeExtensions => "includeExtensions"
  | .maxConcurrency => "maxConcurrency"

/-- What there is under the key. -/
def Value : SettingsKey → Type
  | .successEmoji | .errorEmoji => Option String
  | .pluginPath | .hintFormat => String
  | .anchorFallback => AnchorFallback
  | .excludeDirs | .includeExtensions => Option (List String)
  | .maxConcurrency => Option Nat

def get : (key : SettingsKey) → Settings → key.Value
  | .successEmoji, settings => settings.successEmoji
  | .errorEmoji, settings => settings.errorEmoji
  | .pluginPath, settings => settings.pluginPath
  | .hintFormat, settings => settings.hintFormat
  | .anchorFallback, settings => settings.anchorFallback
  | .excludeDirs, settings => settings.excludeDirs
  | .includeExtensions, settings => settings.includeExtensions
  | .maxConcurrency, settings => settings.maxConcurrency

def put : (key : SettingsKey) → key.Value → Settings → Settings
  | .successEmoji, emoji, settings => { settings with successEmoji := emoji }
  | .errorEmoji, emoji, settings => { settings with errorEmoji := emoji }
  | .pluginPath, path, settings => { settings with pluginPath := path }
  | .hintFormat, format, settings => { settings with hintFormat := format }
  | .anchorFallback, fallback, settings => { settings with anchorFallback := fallback }
  | .excludeDirs, dirs, settings => { settings with excludeDirs := dirs }
  | .includeExtensions, extensions, settings => { settings with includeExtensions := extensions }
  | .maxConcurrency, count, settings => { settings with maxConcurrency := count }

/-- What a value sets. -/
def read : (key : SettingsKey) → Json → key.Value
  | .successEmoji, v => Settings.emojiOf Settings.defaults.successEmoji v
  | .errorEmoji, v => Settings.emojiOf Settings.defaults.errorEmoji v
  | .pluginPath, v => Settings.textOf Settings.defaults.pluginPath v
  | .hintFormat, v => Settings.textOf Settings.defaults.hintFormat v
  | .anchorFallback, v => (AnchorFallback.ofJson? v).getD Settings.defaults.anchorFallback
  | .excludeDirs, v => v.strings?
  | .includeExtensions, v => v.strings?
  | .maxConcurrency, v => Settings.countOf v

/-- What there is when nothing is set. -/
def unset (key : SettingsKey) : key.Value := key.get Settings.defaults

@[simp] theorem get_put_self (key : SettingsKey) (value : key.Value) (settings : Settings) :
    key.get (key.put value settings) = value := by
  cases key <;> rfl

@[simp] theorem put_get_self (key : SettingsKey) (settings : Settings) :
    key.put (key.get settings) settings = settings := by
  cases key <;> rfl

/-- Settings are what there is under their keys. -/
theorem eq_of_get_eq {settings settings' : Settings}
    (h : ∀ key, get key settings = get key settings') : settings = settings' := by
  have hsuccess := h .successEmoji
  have herror := h .errorEmoji
  have hpath := h .pluginPath
  have hformat := h .hintFormat
  have hfallback := h .anchorFallback
  have hdirs := h .excludeDirs
  have hextensions := h .includeExtensions
  have hcount := h .maxConcurrency
  cases settings
  cases settings'
  simp only [get] at *
  congr

/-- Every key takes every value. -/
theorem field (key : SettingsKey) :
    Settings.recordType.Field key.name (fun v => .ok (key.read v)) key.put := by
  cases key
  all_goals
    refine ⟨by decide, by decide, fun _ _ => rfl, fun _ _ _ => rfl,
      fun value settings other w hne => ?_⟩
    simp only [Settings.recordType]
    split <;> first | exact absurd rfl hne | rfl

theorem name_injective : Function.Injective name := by
  intro key key' h
  cases key <;> cases key' <;> first | rfl | simp [name] at h

end SettingsKey

namespace Settings

/-- An object is always settings, whatever stands in it. -/
theorem read_obj (members : List (String × Json)) :
    recordType.read (Json.obj members).sorted = .ok (ofJson (.obj members)) := by
  have hset : ∀ settings name v, ∃ settings', recordType.set settings name v = .ok settings' := by
    intro settings name v
    simp only [recordType]
    split <;> exact ⟨_, rfl⟩
  have hneed : ∀ field ∈ recordType.fields, field.2 ≠ .always := by decide
  obtain ⟨settings, hread⟩ := exists_read_obj hset hneed (sortedMembers_ascending .nil members)
  rw [ofJson, sorted, hread]

end Settings

namespace SettingsKey

/-- **What there is under a key is what the member of that key sets.** -/
theorem get_ofJson (key : SettingsKey) (members : List (String × Json)) :
    key.get (Settings.ofJson (.obj members)) =
      ((find? key.name members).map fun v => key.read v.sorted).getD key.unset := by
  have hread := Settings.read_obj members
  rw [sorted] at hread
  have hkept := sortedMembers_ascending .nil members
  have hlookup := lookup_sortedMembers [] members key.name
  rw [List.lookup_nil, Option.or_none] at hlookup
  generalize sorted.sortedMembers [] members = kept at hread hkept hlookup
  cases hfind : find? key.name members with
  | none =>
    have hfresh : Fresh key.name kept := fun m hm hname => by
      have hsome := hkept.lookup_eq_some_iff.mpr hm
      rw [hname, hlookup, hfind] at hsome
      cases hsome
    rw [key.field.eq_assign_of_fresh (key.put_get_self _) hfresh hread, get_put_self]
    rfl
  | some v =>
    rw [hfind, Option.map_some] at hlookup
    obtain ⟨settings, hsettings⟩ := key.field.exists_assign_of_lookup hkept hlookup rfl hread
    rw [hsettings, get_put_self]
    rfl

/-- Objects with the same members under the keys set the same. -/
theorem ofJson_congr {members members' : List (String × Json)}
    (h : ∀ key : SettingsKey, find? key.name members = find? key.name members') :
    Settings.ofJson (.obj members) = Settings.ofJson (.obj members') :=
  eq_of_get_eq fun key => by rw [get_ofJson, get_ofJson, h]

end SettingsKey

theorem str?_sorted (v : Json) : v.sorted.str? = v.str? := by
  cases v <;> rfl

/-- The texts of a list are its entries that are texts, in their order. -/
theorem strings?_arr (items : List Json) :
    ∃ texts, (Json.arr items).sorted.strings? = some texts ∧
      texts.map .str = items.filter (·.str?.isSome) := by
  refine ⟨items.filterMap str?, ?_, ?_⟩
  · rw [sorted_arr, strings?, List.filterMap_map]
    exact congrArg some (List.filterMap_congr fun v _ => str?_sorted v)
  · induction items with
    | nil => rfl
    | cons v rest ih =>
      cases v with
      | str s => exact congrArg (List.cons (.str s)) ih
      | null | bool _ | int _ | float _ | arr _ | obj _ => exact ih

/-- **A bad key falls back alone.**  Whatever an object has under one key, that value alone decides
what is set there, and under the other keys nothing changes.  An object is never given up as a
whole, other names in it do not matter, and of a list the texts are kept. -/
theorem Settings.keys_stay_alone (members : List (String × Json)) (v : Json) :
    (∀ key : SettingsKey,
      key.get (ofJson (.obj (setMember key.name v members))) = key.read v.sorted ∧
      ∀ other ≠ key, other.get (ofJson (.obj (setMember key.name v members))) =
        other.get (ofJson (.obj members))) ∧
    recordType.read (Json.obj members).sorted = .ok (ofJson (.obj members)) ∧
    (∀ name, (∀ key : SettingsKey, key.name ≠ name) →
      ofJson (.obj (setMember name v members)) = ofJson (.obj members)) ∧
    ∀ items, v = .arr items → ∃ texts, texts.map .str = items.filter (·.str?.isSome) ∧
      (ofJson (.obj (setMember "excludeDirs" v members))).excludeDirs = some texts ∧
      (ofJson (.obj (setMember "includeExtensions" v members))).includeExtensions = some texts := by
  have hown : ∀ key : SettingsKey,
      key.get (ofJson (.obj (setMember key.name v members))) = key.read v.sorted := fun key => by
    rw [key.get_ofJson, find?_setMember_self]
    rfl
  refine ⟨fun key => ⟨hown key, fun other hother => ?_⟩, read_obj members, fun name hname => ?_, ?_⟩
  · have hne : other.name ≠ key.name := fun h => hother (SettingsKey.name_injective h)
    rw [other.get_ofJson, other.get_ofJson, find?_setMember_of_ne hne]
  · exact SettingsKey.ofJson_congr fun key => find?_setMember_of_ne (hname key)
  · rintro items rfl
    obtain ⟨texts, hread, htexts⟩ := strings?_arr items
    exact ⟨texts, htexts, (hown .excludeDirs).trans hread, (hown .includeExtensions).trans hread⟩

/-- A number below zero among other keys that are not as they should be. -/
theorem Settings.negative_count_alone :
    let members : List (String × Json) :=
      [("errorEmoji", .str ""), ("excludeDirs", .arr [.str "vendor", .nat 3, .str "dist"]),
        ("hintFormat", .arr []), ("maxConcurrency", .nat 4)]
    let settings := ofJson (.obj (setMember "maxConcurrency" (.int (-2)) members))
    settings.maxConcurrency = none ∧ settings.errorEmoji = none ∧
      settings.excludeDirs = some ["vendor", "dist"] ∧
      settings.hintFormat = defaults.hintFormat := by
  intro members settings
  obtain ⟨hkeys, -⟩ := keys_stay_alone members (.int (-2))
  obtain ⟨hcount, hothers⟩ := hkeys .maxConcurrency
  exact ⟨hcount, hothers .errorEmoji nofun, hothers .excludeDirs nofun, hothers .hintFormat nofun⟩

end MemoHints
