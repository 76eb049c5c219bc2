import MemoHints.Digest.Text

/-!
# Open documents

Editors resend whole documents, often unchanged. An event whose text has the digest of the stored
one changes nothing; any other raises the version.
-/

namespace MemoHints

/-- What is known of an open document. -/
structure DocumentSession where
  version : Int
  digest : Digest
  languageId : String
  text : String
deriving DecidableEq

/-- What an event did to a document. -/
inductive SyncAction where
  | initialized
  | suppressed
  | updated (version : Int)
deriving DecidableEq

/-- The largest version. -/
def maxVersion : Int := 2 ^ 31 - 1

/-- The version after an event: the next one, unless the event's own is larger. -/
def nextVersion (old incoming : Int) : Int := max (min (old + 1) maxVersion) incoming

namespace DocumentSession

def opened (languageId : String) (version : Int) (text : String) : DocumentSession :=
  { version, digest := digestOf text, languageId, text }

/-- The document after an event with another text. An empty language id says nothing. -/
def changed (session : DocumentSession) (languageId : String) (version : Int) (text : String) :
    DocumentSession :=
  { version := nextVersion session.version version
    digest := digestOf text
    languageId := if languageId = "" then session.languageId else languageId
    text }

end DocumentSession

/-- The open documents by their addresses. -/
structure DocumentStore where
  sessions : List (String × DocumentSession) := []

namespace DocumentStore

def get? (store : DocumentStore) (uri : String) : Option DocumentSession :=
  store.sessions.lookup uri

/-- The store with a document under an address. -/
def set (store : DocumentStore) (uri : String) (session : DocumentSession) : DocumentStore :=
  ⟨(uri, session) :: store.sessions.filter (·.1 ≠ uri)⟩

/-- A document was opened or changed. -/
def sync (store : DocumentStore) (uri languageId : String) (version : Int) (text : String) :
    SyncAction × DocumentStore :=
  match store.get? uri with
  | none => (.initialized, store.set uri (.opened languageId version text))
  | some session =>
    if session.digest = digestOf text then (.suppressed, store)
    else
      let session := session.changed languageId version text
      (.updated session.version, store.set uri session)

/-- A document was closed. -/
def close (store : DocumentStore) (uri : String) : DocumentStore :=
  ⟨store.sessions.filter (·.1 ≠ uri)⟩

def size (store : DocumentStore) : Nat := store.sessions.length

end DocumentStore

end MemoHints
