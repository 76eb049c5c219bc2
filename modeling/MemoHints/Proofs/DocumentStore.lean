import Mathlib.Data.Set.Function
import Mathlib.Logic.Function.Basic
import MemoHints.Document.Store
import MemoHints.Proofs.Entries

/-!
# Open documents tell their history

What is stored of a document follows from what was said of it since it was closed last
(`sessionOf`): the text is the latest one, the language id the latest that was given with a text
that was new, and the version goes up with every new text.  The main statement is
`get?_eq_sessionOf`.

An event with the digest of the stored text is passed over, so all of this needs that different
texts of a run have different digests.  Digests of all texts cannot be different, as there are more
texts than digests.
-/

namespace MemoHints

/-- What an editor says of a document when it opens or changes it. -/
structure DocumentEdit where
  languageId : String
  version : Int32
  text : String

inductive DocumentEvent where
  | sync (uri : String) (edit : DocumentEdit)
  | close (uri : String)

/-- What was said of a document, and what it did. -/
structure SyncRecord where
  edit : DocumentEdit
  action : SyncAction

/-- A store, and what was said of each document since it was closed last, the latest first. -/
structure DocumentLog where
  store : DocumentStore := {}
  since : String → List SyncRecord := fun _ => []

namespace DocumentStore

/-- An edit of a document. -/
def edited (store : DocumentStore) (uri : String) (edit : DocumentEdit) :
    SyncAction × DocumentStore :=
  store.sync uri edit.languageId edit.version.toInt edit.text

variable {store : DocumentStore} {uri : String}

theorem get?_set_self (store : DocumentStore) (uri : String) (session : DocumentSession) :
    (store.set uri session).get? uri = some session :=
  List.lookup_cons_self

theorem get?_set_of_ne (session : DocumentSession) {other : String} (h : other ≠ uri) :
    (store.set uri session).get? other = store.get? other :=
  (lookup_cons_of_ne session h).trans (lookup_filter_of_ne store.sessions h)

theorem get?_close_self (store : DocumentStore) (uri : String) :
    (store.close uri).get? uri = none :=
  lookup_filter_self store.sessions uri

theorem get?_close_of_ne {other : String} (h : other ≠ uri) :
    (store.close uri).get? other = store.get? other :=
  lookup_filter_of_ne store.sessions h

/-- An edit leaves other documents alone. -/
theorem get?_edited_of_ne (edit : DocumentEdit) {other : String} (h : other ≠ uri) :
    (store.edited uri edit).2.get? other = store.get? other := by
  unfold edited sync
  split
  · exact get?_set_of_ne _ h
  · split
    · rfl
    · exact get?_set_of_ne _ h

/-- All that an edit can do: the document is new, or its digest is the stored one, or it changes. -/
theorem edited_cases (store : DocumentStore) (uri : String) (edit : DocumentEdit) :
    (store.get? uri = none ∧ store.edited uri edit =
      (.initialized, store.set uri (.opened edit.languageId edit.version.toInt edit.text))) ∨
    (∃ session, store.get? uri = some session ∧ session.digest = digestOf edit.text ∧
      store.edited uri edit = (.suppressed, store)) ∨
    (∃ session, store.get? uri = some session ∧ session.digest ≠ digestOf edit.text ∧
      store.edited uri edit =
        (.updated (nextVersion session.version edit.version.toInt),
          store.set uri (session.changed edit.languageId edit.version.toInt edit.text))) := by
  cases hget : store.get? uri with
  | none => exact .inl ⟨rfl, by simp only [edited, sync, hget]⟩
  | some session =>
    by_cases hdigest : session.digest = digestOf edit.text
    · exact .inr (.inl ⟨session, rfl, hdigest, by simp only [edited, sync, hget, if_pos hdigest]⟩)
    · refine .inr (.inr ⟨session, rfl, hdigest, ?_⟩)
      simp only [edited, sync, hget, if_neg hdigest]
      rfl

end DocumentStore

namespace DocumentLog

def take (log : DocumentLog) : DocumentEvent → DocumentLog
  | .sync uri edit =>
    let step := log.store.edited uri edit
    { store := step.2, since := Function.update log.since uri (⟨edit, step.1⟩ :: log.since uri) }
  | .close uri =>
    { store := log.store.close uri, since := Function.update log.since uri [] }

/-- Events one after the other. -/
def takeAll (log : DocumentLog) (events : List DocumentEvent) : DocumentLog :=
  events.foldl take log

end DocumentLog

/-! ## What the history says -/

/-- The version after some edits, the latest first: that of the first one, and with every new text
the next one unless the edit's own is larger.  There is no version after the largest. -/
def versionOf : List SyncRecord → Int
  | [] => 0
  | [first] => first.edit.version.toInt
  | latest :: before :: earlier =>
    if latest.edit.text = before.edit.text then versionOf (before :: earlier)
    else max (min (versionOf (before :: earlier) + 1) maxVersion) latest.edit.version.toInt

/-- The language id that was given last with an edit that was not passed over. -/
def languageOf : List SyncRecord → String
  | [] => ""
  | latest :: earlier =>
    if latest.action = .suppressed ∨ latest.edit.languageId = "" then languageOf earlier
    else latest.edit.languageId

/-- What is known of a document after some edits, the latest first. -/
def sessionOf : List SyncRecord → Option DocumentSession
  | [] => none
  | latest :: earlier =>
    some {
      version := versionOf (latest :: earlier)
      digest := digestOf latest.edit.text
      languageId := languageOf (latest :: earlier)
      text := latest.edit.text }

/-- What each edit did: the first opened the document, one with the text before it was passed over,
and any other changed the document. -/
inductive Recorded : List SyncRecord → Prop where
  | closed : Recorded []
  | opened (edit : DocumentEdit) : Recorded [⟨edit, .initialized⟩]
  | passed {before : SyncRecord} {earlier : List SyncRecord} {edit : DocumentEdit} :
    Recorded (before :: earlier) → edit.text = before.edit.text →
      Recorded (⟨edit, .suppressed⟩ :: before :: earlier)
  | changed {before : SyncRecord} {earlier : List SyncRecord} {edit : DocumentEdit} :
    Recorded (before :: earlier) → edit.text ≠ before.edit.text →
      Recorded (⟨edit, .updated (nextVersion (versionOf (before :: earlier)) edit.version.toInt)⟩ ::
        before :: earlier)

section Versions

theorem le_nextVersion {old : Int} (h : old ≤ maxVersion) (incoming : Int) :
    old ≤ nextVersion old incoming := by
  rw [nextVersion]
  omega

theorem lt_nextVersion {old : Int} (h : old < maxVersion) (incoming : Int) :
    old < nextVersion old incoming := by
  rw [nextVersion]
  omega

theorem incoming_le_nextVersion (old incoming : Int) : incoming ≤ nextVersion old incoming :=
  Int.le_max_right _ _

theorem nextVersion_le (old : Int) {incoming : Int} (h : incoming ≤ maxVersion) :
    nextVersion old incoming ≤ maxVersion := by
  rw [nextVersion]
  omega

theorem DocumentEdit.version_le (edit : DocumentEdit) : edit.version.toInt ≤ maxVersion :=
  edit.version.toInt_le

variable {latest before : SyncRecord} {earlier : List SyncRecord}

theorem versionOf_of_eq (h : latest.edit.text = before.edit.text) :
    versionOf (latest :: before :: earlier) = versionOf (before :: earlier) := by
  rw [versionOf, if_pos h]

theorem versionOf_of_ne (h : latest.edit.text ≠ before.edit.text) :
    versionOf (latest :: before :: earlier) =
      nextVersion (versionOf (before :: earlier)) latest.edit.version.toInt := by
  rw [versionOf, if_neg h, nextVersion]

/-- Versions never leave their range. -/
theorem versionOf_le (records : List SyncRecord) : versionOf records ≤ maxVersion := by
  fun_induction versionOf records with
  | case1 => decide
  | case2 first => exact first.edit.version_le
  | case3 latest before earlier hsame ih => exact ih
  | case4 latest before earlier hnew ih => exact nextVersion_le _ latest.edit.version_le

/-- The version is not below that of any edit that was not passed over. -/
theorem Recorded.version_le {records : List SyncRecord} (h : Recorded records) {r : SyncRecord}
    (hr : r ∈ records) (hpassed : r.action ≠ .suppressed) :
    r.edit.version.toInt ≤ versionOf records := by
  induction h with
  | closed => cases hr
  | opened edit =>
    obtain rfl := List.mem_singleton.mp hr
    exact Int.le_refl _
  | passed h hsame ih =>
    rw [versionOf_of_eq hsame]
    rcases List.mem_cons.mp hr with rfl | hr
    · exact absurd rfl hpassed
    · exact ih hr
  | @changed before earlier edit h hnew ih =>
    rw [versionOf_of_ne hnew]
    rcases List.mem_cons.mp hr with rfl | hr
    · exact incoming_le_nextVersion _ _
    · exact Int.le_trans (ih hr) (le_nextVersion (versionOf_le _) _)

end Versions

/-! ## The invariant -/

/-- What is stored of a document is what its history says. -/
structure Told (texts : Set String) (session? : Option DocumentSession)
    (records : List SyncRecord) : Prop where
  session : session? = sessionOf records
  recorded : Recorded records
  texts : ∀ r ∈ records, r.edit.text ∈ texts

namespace Told

variable {texts : Set String} {records : List SyncRecord}

theorem closed (texts : Set String) : Told texts none [] := ⟨rfl, .closed, nofun⟩

theorem eq_nil (h : Told texts none records) : records = [] := by
  cases records with
  | nil => rfl
  | cons latest earlier => cases h.session

theorem exists_latest {session : DocumentSession} (h : Told texts (some session) records) :
    ∃ latest earlier, records = latest :: earlier ∧
      session = ⟨versionOf records, digestOf latest.edit.text, languageOf records,
        latest.edit.text⟩ := by
  cases records with
  | nil => cases h.session
  | cons latest earlier => exact ⟨latest, earlier, rfl, Option.some.inj h.session⟩

/-- The digest of a text is the stored one only if the text is. -/
theorem digest_eq_iff {session : DocumentSession} (h : Told texts (some session) records)
    (hdigest : Set.InjOn digestOf texts) {text : String} (htext : text ∈ texts) :
    session.digest = digestOf text ↔ session.text = text := by
  obtain ⟨latest, earlier, rfl, rfl⟩ := h.exists_latest
  exact hdigest.eq_iff (h.texts latest List.mem_cons_self) htext

/-- What an edit does to the store and to the history of its document. -/
theorem edited {store : DocumentStore} {uri : String} (h : Told texts (store.get? uri) records)
    (hdigest : Set.InjOn digestOf texts) {edit : DocumentEdit} (htext : edit.text ∈ texts) :
    Told texts ((store.edited uri edit).2.get? uri)
      (⟨edit, (store.edited uri edit).1⟩ :: records) := by
  have htexts : ∀ action, ∀ r ∈ ⟨edit, action⟩ :: records, r.edit.text ∈ texts := by
    intro action r hr
    rcases List.mem_cons.mp hr with rfl | hr
    · exact htext
    · exact h.texts r hr
  rcases store.edited_cases uri edit with
    ⟨hget, hedited⟩ | ⟨session, hget, hsame, hedited⟩ | ⟨session, hget, hnew, hedited⟩
  · rw [hget] at h
    obtain rfl := h.eq_nil
    rw [hedited, DocumentStore.get?_set_self]
    refine ⟨?_, .opened edit, htexts _⟩
    by_cases hempty : edit.languageId = "" <;>
      simp [sessionOf, versionOf, languageOf, DocumentSession.opened, hempty]
  · rw [hget] at h
    rw [h.digest_eq_iff hdigest htext] at hsame
    obtain ⟨latest, earlier, rfl, rfl⟩ := h.exists_latest
    have hsame : edit.text = latest.edit.text := hsame.symm
    rw [hedited, hget]
    refine ⟨?_, .passed h.recorded hsame, htexts _⟩
    simp [sessionOf, versionOf, languageOf, hsame]
  · rw [hget] at h
    rw [Ne, h.digest_eq_iff hdigest htext] at hnew
    obtain ⟨latest, earlier, rfl, rfl⟩ := h.exists_latest
    have hnew : edit.text ≠ latest.edit.text := Ne.symm hnew
    rw [hedited, DocumentStore.get?_set_self]
    refine ⟨?_, .changed h.recorded hnew, htexts _⟩
    rw [sessionOf, versionOf_of_ne hnew, DocumentSession.changed]
    simp [languageOf]

end Told

namespace DocumentLog

def Tells (texts : Set String) (log : DocumentLog) : Prop :=
  ∀ uri, Told texts (log.store.get? uri) (log.since uri)

variable {texts : Set String} {log : DocumentLog}

theorem tells_new (texts : Set String) : Tells texts {} := fun _ => .closed texts

/-- An edit or the closing of a document matters to that document only. -/
theorem take_of_ne (log : DocumentLog) {uri other : String} (hne : other ≠ uri)
    {event : DocumentEvent}
    (hevent : event = .close uri ∨ ∃ edit, event = .sync uri edit) :
    (log.take event).store.get? other = log.store.get? other ∧
      (log.take event).since other = log.since other := by
  rcases hevent with rfl | ⟨edit, rfl⟩
  · exact ⟨DocumentStore.get?_close_of_ne hne, Function.update_of_ne hne ..⟩
  · exact ⟨DocumentStore.get?_edited_of_ne edit hne, Function.update_of_ne hne ..⟩

/-- Every event keeps the invariant. -/
theorem Tells.take (h : log.Tells texts) (hdigest : Set.InjOn digestOf texts)
    {event : DocumentEvent} (htext : ∀ uri edit, event = .sync uri edit → edit.text ∈ texts) :
    (log.take event).Tells texts := by
  intro other
  cases event with
  | sync uri edit =>
    rcases eq_or_ne other uri with rfl | hne
    · simp only [DocumentLog.take, Function.update_self]
      exact (h other).edited hdigest (htext other edit rfl)
    · obtain ⟨hget, hsince⟩ := log.take_of_ne hne (.inr ⟨edit, rfl⟩)
      rw [hget, hsince]
      exact h other
  | close uri =>
    rcases eq_or_ne other uri with rfl | hne
    · simp only [DocumentLog.take, Function.update_self, DocumentStore.get?_close_self]
      exact .closed texts
    · obtain ⟨hget, hsince⟩ := log.take_of_ne hne (.inl rfl)
      rw [hget, hsince]
      exact h other

theorem Tells.takeAll (h : log.Tells texts) (hdigest : Set.InjOn digestOf texts)
    {events : List DocumentEvent}
    (htexts : ∀ uri edit, .sync uri edit ∈ events → edit.text ∈ texts) :
    (log.takeAll events).Tells texts := by
  induction events generalizing log with
  | nil => exact h
  | cons event events ih =>
    refine ih (h.take hdigest ?_) fun uri edit hmem => htexts uri edit (List.mem_cons_of_mem _ hmem)
    rintro uri edit rfl
    exact htexts uri edit List.mem_cons_self

end DocumentLog

/-! ## The next edit -/

namespace Told

variable {texts : Set String} {records : List SyncRecord} {store : DocumentStore} {uri : String}
  {edit : DocumentEdit}

theorem initialized_iff (store : DocumentStore) (uri : String) (edit : DocumentEdit) :
    (store.edited uri edit).1 = .initialized ↔ store.get? uri = none := by
  rcases store.edited_cases uri edit with
    ⟨hget, hedited⟩ | ⟨session, hget, -, hedited⟩ | ⟨session, hget, -, hedited⟩ <;>
  simp [hget, hedited]

/-- An edit is passed over exactly when its text is the stored one. -/
theorem suppressed_iff (h : Told texts (store.get? uri) records)
    (hdigest : Set.InjOn digestOf texts) (htext : edit.text ∈ texts) :
    (store.edited uri edit).1 = .suppressed ↔
      ∃ session, store.get? uri = some session ∧ session.text = edit.text := by
  rcases store.edited_cases uri edit with
    ⟨hget, hedited⟩ | ⟨session, hget, hsame, hedited⟩ | ⟨session, hget, hnew, hedited⟩
  · simp [hget, hedited]
  · rw [hget] at h
    simpa [hget, hedited] using (h.digest_eq_iff hdigest htext).mp hsame
  · rw [hget] at h
    simpa [hget, hedited] using mt (h.digest_eq_iff hdigest htext).mpr hnew

/-- An edit that is passed over changes nothing. -/
theorem eq_of_suppressed (hpassed : (store.edited uri edit).1 = .suppressed) :
    (store.edited uri edit).2 = store := by
  rcases store.edited_cases uri edit with
    ⟨-, hedited⟩ | ⟨session, -, -, hedited⟩ | ⟨session, -, -, hedited⟩
  · rw [hedited] at hpassed
    cases hpassed
  · rw [hedited]
  · rw [hedited] at hpassed
    cases hpassed

/-- The version does not go down, and it goes up with every change until it is the largest. -/
theorem version_edited (h : Told texts (store.get? uri) records) {session : DocumentSession}
    (hget : store.get? uri = some session) :
    ∃ session', (store.edited uri edit).2.get? uri = some session' ∧
      session.version ≤ session'.version ∧
      ∀ n, (store.edited uri edit).1 = .updated n →
        session'.version = n ∧ (session.version < n ∨ session.version = maxVersion) := by
  rcases store.edited_cases uri edit with
    ⟨hnone, -⟩ | ⟨_, -, -, hedited⟩ | ⟨session', hget', -, hedited⟩
  · rw [hget] at hnone
    cases hnone
  · rw [hedited]
    exact ⟨session, hget, Int.le_refl _, fun n => nofun⟩
  · obtain rfl := Option.some.inj (hget.symm.trans hget')
    rw [hget] at h
    have hle : session.version ≤ maxVersion := by
      obtain ⟨latest, earlier, -, rfl⟩ := h.exists_latest
      exact versionOf_le records
    rw [hedited]
    refine ⟨_, DocumentStore.get?_set_self .., le_nextVersion hle _, ?_⟩
    rintro n ⟨⟩
    refine ⟨rfl, ?_⟩
    rcases Int.lt_or_eq_of_le hle with hlt | heq
    · exact .inl (lt_nextVersion hlt _)
    · exact .inr heq

end Told

/-- **Stored documents reflect what was said of them.**  After any run of events whose texts have
different digests, what is stored of a document is what its edits since it was closed last say, and
nothing is stored exactly when there are none.  Its version is not below that of an edit that was
not passed over.  The next edit is passed over exactly when its text is the stored one, and then the
whole store stays as it is; otherwise the document is new, or the answer is the version that is
stored then.  The version does not go down, and goes up with every change unless it was the largest;
documents at other addresses stay as they are. -/
theorem get?_eq_sessionOf {texts : Set String} (hdigest : Set.InjOn digestOf texts)
    {events : List DocumentEvent}
    (htexts : ∀ uri edit, .sync uri edit ∈ events → edit.text ∈ texts) (uri : String) :
    let log := DocumentLog.takeAll {} events
    log.store.get? uri = sessionOf (log.since uri) ∧
    (log.store.get? uri = none ↔ log.since uri = []) ∧
    (∀ session, log.store.get? uri = some session → ∀ r ∈ log.since uri,
      r.action ≠ .suppressed → r.edit.version.toInt ≤ session.version) ∧
    ∀ edit : DocumentEdit, edit.text ∈ texts →
      let step := log.store.edited uri edit
      (step.1 = .initialized ↔ log.store.get? uri = none) ∧
      (step.1 = .suppressed ↔
        ∃ session, log.store.get? uri = some session ∧ session.text = edit.text) ∧
      (step.1 = .suppressed → step.2 = log.store) ∧
      (∀ session, log.store.get? uri = some session →
        ∃ session', step.2.get? uri = some session' ∧ session.version ≤ session'.version ∧
          ∀ n, step.1 = .updated n →
            session'.version = n ∧ (session.version < n ∨ session.version = maxVersion)) ∧
      ∀ other, other ≠ uri → step.2.get? other = log.store.get? other := by
  intro log
  have htold : Told texts (log.store.get? uri) (log.since uri) :=
    (DocumentLog.tells_new texts).takeAll hdigest htexts uri
  refine ⟨htold.session, ⟨?_, ?_⟩, ?_, ?_⟩
  · intro hnone
    rw [hnone] at htold
    exact htold.eq_nil
  · intro hnil
    rw [htold.session, hnil, sessionOf]
  · intro session hget r hr hpassed
    have hversion := htold.recorded.version_le hr hpassed
    rw [hget] at htold
    obtain ⟨latest, earlier, -, rfl⟩ := htold.exists_latest
    exact hversion
  · intro edit htext step
    exact ⟨Told.initialized_iff _ _ _, htold.suppressed_iff hdigest htext, Told.eq_of_suppressed,
      fun session hget => htold.version_edited hget,
      fun other hne => DocumentStore.get?_edited_of_ne edit hne⟩

/-! A document is opened with version 3 and sent again with version 9, which is passed over; then it
is changed twice, each time with an older version. -/

def resending : List DocumentEvent :=
  [.sync "u" ⟨"typescriptreact", 3, "a"⟩, .sync "u" ⟨"css", 9, "a"⟩, .sync "v" ⟨"", 1, "b"⟩,
    .sync "u" ⟨"", 2, "b"⟩, .close "v"]

theorem resending_tells :
    let log := DocumentLog.takeAll {} resending
    log.store.get? "u" = some ⟨4, digestOf "b", "typescriptreact", "b"⟩ ∧
      log.store.get? "v" = none ∧
      (log.store.edited "u" ⟨"", 1, "a"⟩).1 ≠ .suppressed := by
  have htexts : ∀ uri edit, .sync uri edit ∈ resending → edit.text ∈ ({"a", "b"} : Set String) := by
    intro uri edit h
    simp only [resending, List.mem_cons, List.not_mem_nil, or_false, DocumentEvent.sync.injEq,
      reduceCtorEq] at h
    rcases h with ⟨-, rfl⟩ | ⟨-, rfl⟩ | ⟨-, rfl⟩ | ⟨-, rfl⟩ <;> simp
  have hne : digestOf "a" ≠ digestOf "b" := by decide +kernel
  have hdigest : Set.InjOn digestOf {"a", "b"} := Set.injOn_pair.mpr fun hsame => absurd hsame hne
  intro log
  obtain ⟨hu, -, -, hedit⟩ := get?_eq_sessionOf hdigest htexts "u"
  obtain ⟨hv, -⟩ := get?_eq_sessionOf hdigest htexts "v"
  have hsession : sessionOf (log.since "u") =
      some ⟨4, digestOf "b", "typescriptreact", "b"⟩ := by decide +kernel
  have hclosed : sessionOf (log.since "v") = none := by decide +kernel
  refine ⟨hu.trans hsession, hv.trans hclosed, fun hpassed => ?_⟩
  obtain ⟨-, hsuppressed, -⟩ := hedit ⟨"", 1, "a"⟩ (.inl rfl)
  obtain ⟨session, hget, htext⟩ := hsuppressed.mp hpassed
  obtain rfl := Option.some.inj ((hu.trans hsession).symm.trans hget)
  exact absurd htext (by decide)

end MemoHints
