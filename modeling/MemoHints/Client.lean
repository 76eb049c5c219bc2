import MemoHints.Json.Basic
import MemoHints.Text.Lowercase
import MemoHints.Text.Search

/-!
# The connected editor

What an editor can show, told from the name it gives itself.
-/

namespace MemoHints

/-- The dialect of tooltips. -/
inductive Markup where
  | markdown
  | html
deriving DecidableEq, Repr

namespace Markup

def name : Markup → String
  | .markdown => "markdown"
  | .html => "html"

/-- The dialect that the initialization options ask for. -/
def ofOptions (options : Option Json) : Markup :=
  match (options.bind (·.get? "tooltipFormat")).bind Json.str? with
  | some "html" => .html
  | _ => .markdown

end Markup

/-- An editor by its name in lower case. -/
structure ClientProfile where
  name : String := ""
deriving DecidableEq

namespace ClientProfile

def ofName (name : Option String) : ClientProfile := ⟨Text.lowercase (name.getD "")⟩

/-- Whether the name has a part. -/
def mentions (client : ClientProfile) (part : String) : Bool :=
  Text.contains part.toList client.name.toList

def isVsCode (client : ClientProfile) : Bool := client.mentions "visual studio code"

def isNeovim (client : ClientProfile) : Bool := client.mentions "neovim"

def isZed (client : ClientProfile) : Bool := client.mentions "zed"

/-- Editors that show tooltips as plain text have no use for links. -/
def supportsCommandLinks (client : ClientProfile) : Bool := !client.isNeovim && !client.isZed

def supportsFixWithAi (client : ClientProfile) : Bool :=
  client.isVsCode || client.mentions "cursor" || client.mentions "antigravity"

/-- Hovers repeat the tooltips of hints, save where an editor never shows those. -/
def hoverEnabled (client : ClientProfile) : Bool := client.isNeovim

end ClientProfile

end MemoHints
