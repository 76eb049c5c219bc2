import MemoHints.Digest.Text
import MemoHints.Lru

/-!
# Cached results

Results of compiler runs by the name of the file and the digest of the text. A key does not say
which compiler made the result, so the cache has to be cleared when the plugin changes.
-/

namespace MemoHints

/-- Results of compiler runs. -/
abbrev ResultCache (α : Type) := Lru String α

namespace ResultCache

variable {α : Type}

/-- How many results are kept unless it is said otherwise. -/
def defaultCapacity : Nat := 100

/-- The key of a text under the name of a file. -/
def key (text filename : String) : String := filename ++ ":" ++ (digestOf text).hex

/-- Looks a result up. -/
def find (cache : ResultCache α) (text filename : String) : Option α × ResultCache α :=
  cache.get (key text filename)

/-- Keeps a result. -/
def store (cache : ResultCache α) (text filename : String) (result : α) : ResultCache α :=
  cache.put (key text filename) result

end ResultCache

end MemoHints
