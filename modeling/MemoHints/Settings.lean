import MemoHints.Document.Anchor
import MemoHints.Json.Record

/-!
# Settings

What a client may set. Each key falls back to its default on its own when it is missing or cannot be
read; an emoji that is null or empty turns hints of its kind off instead.
-/

namespace MemoHints

open Json

/-- What the client can set. -/
structure Settings where
  /-- Shown for compiled components; hints for them are off when there is none. -/
  successEmoji : Option String := some "✨"
  /-- Shown for components that were not compiled; hints for them are off when there is none. -/
  errorEmoji : Option String := some "🚫"
  /-- Where the plugin lies below the root of the workspace. -/
  pluginPath : String := "node_modules/babel-plugin-react-compiler"
  /-- The label of a hint with its placeholders. -/
  hintFormat : String := "\x7bemoji\x7d"
  anchorFallback : AnchorFallback := .lineEnd
  excludeDirs : Option (List String) := none
  includeExtensions : Option (List String) := none
  /-- How many files a report may compile at a time; never zero. -/
  maxConcurrency : Option Nat := none
deriving DecidableEq

namespace AnchorFallback

def name : AnchorFallback → String
  | .lineEnd => "lineEnd"
  | .lineStart => "lineStart"

def ofName? : String → Option AnchorFallback
  | "lineEnd" => some .lineEnd
  | "lineStart" => some .lineStart
  | _ => none

/-- A name, or a record with that one name and no value for it. -/
def ofJson? : Json → Option AnchorFallback
  | .str name => ofName? name
  | .obj [(name, .null)] => ofName? name
  | _ => none

end AnchorFallback

namespace Settings

/-- The key of the settings in a change of configuration. -/
def sectionName : String := "reactCompilerMarker"

def defaults : Settings := {}

/-- The text of an emoji that is set: none for null and for the empty text, and the default for what
is no text. -/
def emojiOf (fallback : Option String) : Json → Option String
  | .null => none
  | .str s => if s = "" then none else some s
  | _ => fallback

/-- A text that is set, unless it is empty. -/
def textOf (fallback : String) : Json → String
  | .str s => if s = "" then fallback else s
  | _ => fallback

/-- A count that is set, unless it is zero. -/
def countOf (v : Json) : Option Nat := (lenient readSize v).filter (0 < ·)

def recordType : RecordType Settings where
  name := "Settings"
  fields := [("successEmoji", .optional), ("errorEmoji", .optional), ("babelPluginPath", .optional),
    ("hintFormat", .optional), ("anchorFallback", .optional), ("excludeDirs", .optional),
    ("includeExtensions", .optional), ("maxConcurrency", .optional)]
  default := defaults
  set settings name v :=
    match name with
    | "successEmoji" =>
      .ok { settings with successEmoji := emojiOf defaults.successEmoji v }
    | "errorEmoji" => .ok { settings with errorEmoji := emojiOf defaults.errorEmoji v }
    | "babelPluginPath" => .ok { settings with pluginPath := textOf defaults.pluginPath v }
    | "hintFormat" => .ok { settings with hintFormat := textOf defaults.hintFormat v }
    | "anchorFallback" =>
      .ok { settings with
        anchorFallback := (AnchorFallback.ofJson? v).getD defaults.anchorFallback }
    | "excludeDirs" => .ok { settings with excludeDirs := v.strings? }
    | "includeExtensions" => .ok { settings with includeExtensions := v.strings? }
    | "maxConcurrency" => .ok { settings with maxConcurrency := countOf v }
    | _ => .ok settings

/-- The settings in a value; the defaults when it is not a record of them. -/
def ofJson (v : Json) : Settings :=
  match recordType.read v.sorted with
  | .ok settings => settings
  | .error _ => defaults

/-- The settings in a change of configuration, if it mentions them. -/
def ofChange? (v : Json) : Option Settings := (v.get? sectionName).map ofJson

def toJson (settings : Settings) : Json :=
  .obj [("successEmoji", ofOption .str settings.successEmoji),
    ("errorEmoji", ofOption .str settings.errorEmoji),
    ("babelPluginPath", .str settings.pluginPath),
    ("hintFormat", .str settings.hintFormat),
    ("anchorFallback", .str settings.anchorFallback.name),
    ("excludeDirs", ofOption (fun dirs => .arr (dirs.map .str)) settings.excludeDirs),
    ("includeExtensions",
      ofOption (fun extensions => .arr (extensions.map .str)) settings.includeExtensions),
    ("maxConcurrency", ofOption nat settings.maxConcurrency)]

end Settings

end MemoHints
