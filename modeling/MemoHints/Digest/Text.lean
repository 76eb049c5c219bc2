import MemoHints.Digest.Blake3
import MemoHints.Text.Utf8

/-!
# Digests of texts

Texts are told apart by the digest of their bytes.
-/

namespace MemoHints

/-- The digest of a text. -/
abbrev Digest := Blake3.Chain

/-- The digest of the UTF-8 bytes of a text. -/
def digestOf (text : String) : Digest := Blake3.hash (Text.Utf8.encode text)

end MemoHints
