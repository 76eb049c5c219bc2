import Mathlib.Data.Finset.Card
import Mathlib.Data.List.Basic
import MemoHints.Proofs.ResultCache

/-!
# The least recently used goes first

A memo of bounded size explains itself by its history: its keys are the ones touched last, each
once, as many as fit (`Lru.Explains`).  So a key that was put is found exactly as long as fewer
other keys than fit were touched after it.  The main statement is `find_eq_some_iff`, which says
this of results under the name of a file and a text.

Of putting and finding only three things are used: both make their key the latest, a miss changes
nothing, and a new key at full size takes the place of the last one.
-/

namespace MemoHints

/-! ## The order of touches -/

section Recent

variable {κ : Type} [DecidableEq κ]

/-- The keys of a list of touches, the latest first, each where it was touched last. -/
def recent : List κ → List κ
  | [] => []
  | key :: keys => key :: (recent keys).filter (· ≠ key)

@[simp] theorem mem_recent {key : κ} {touches : List κ} : key ∈ recent touches ↔ key ∈ touches := by
  induction touches with
  | nil => rfl
  | cons k touches ih =>
    rw [recent, List.mem_cons, List.mem_cons, List.mem_filter, ih, decide_eq_true_iff]
    constructor
    · rintro (rfl | ⟨h, -⟩)
      · exact .inl rfl
      · exact .inr h
    · rintro (rfl | h)
      · exact .inl rfl
      · rcases eq_or_ne key k with rfl | hne
        · exact .inl rfl
        · exact .inr ⟨h, hne⟩

theorem nodup_recent (touches : List κ) : (recent touches).Nodup := by
  induction touches with
  | nil => exact List.nodup_nil
  | cons k touches ih =>
    refine List.nodup_cons.mpr ⟨?_, ih.filter _⟩
    intro h
    simpa using (List.mem_filter.mp h).2

theorem length_recent (touches : List κ) : (recent touches).length = touches.toFinset.card := by
  rw [← List.toFinset_card_of_nodup (nodup_recent touches)]
  congr 1
  ext key
  rw [List.mem_toFinset, List.mem_toFinset, mem_recent]

/-- What is taken out later may be taken out first. -/
theorem takeWhile_filter {key k : κ} (hne : key ≠ k) (keys : List κ) :
    (keys.filter (· ≠ k)).takeWhile (· ≠ key) = (keys.takeWhile (· ≠ key)).filter (· ≠ k) := by
  induction keys with
  | nil => rfl
  | cons first keys ih =>
    by_cases hkey : first = key
    · subst hkey
      rw [List.filter_cons_of_pos (by simpa using hne), List.takeWhile_cons_of_neg (by simp),
        List.takeWhile_cons_of_neg (by simp), List.filter_nil]
    · rw [List.takeWhile_cons_of_pos (a := first) (l := keys) (by simpa using hkey)]
      by_cases hk : first = k
      · rw [List.filter_cons_of_neg (by simpa using hk),
          List.filter_cons_of_neg (by simpa using hk), ih]
      · rw [List.filter_cons_of_pos (by simpa using hk),
          List.filter_cons_of_pos (by simpa using hk),
          List.takeWhile_cons_of_pos (by simpa using hkey), ih]

theorem takeWhile_recent (key : κ) (touches : List κ) :
    (recent touches).takeWhile (· ≠ key) = recent (touches.takeWhile (· ≠ key)) := by
  induction touches with
  | nil => rfl
  | cons k touches ih =>
    by_cases hk : k = key
    · subst hk
      simp [recent]
    · rw [recent, List.takeWhile_cons_of_pos (by simpa using hk),
        List.takeWhile_cons_of_pos (by simpa using hk), recent, ← ih, takeWhile_filter (Ne.symm hk)]

theorem mem_take_iff {keys : List κ} {key : κ} {n : Nat} :
    key ∈ keys.take n ↔ key ∈ keys ∧ (keys.takeWhile (· ≠ key)).length < n := by
  induction keys generalizing n with
  | nil => simp
  | cons first keys ih =>
    cases n with
    | zero => simp
    | succ n =>
      rw [List.take_succ_cons, List.mem_cons, List.mem_cons, ih]
      by_cases h : first = key
      · subst h
        simp
      · rw [List.takeWhile_cons_of_pos (by simpa using h), List.length_cons, Nat.succ_lt_succ_iff]
        simp [Ne.symm h]

/-- A key is one of the latest ones exactly when few others were touched after it. -/
theorem mem_take_recent {touches : List κ} {key : κ} {n : Nat} :
    key ∈ (recent touches).take n ↔
      key ∈ touches ∧ (touches.takeWhile (· ≠ key)).toFinset.card < n := by
  rw [mem_take_iff, mem_recent, takeWhile_recent, length_recent]

/-- Touching a key among the latest ones gives the latest ones after the touch. -/
theorem take_touch {keys : List κ} (hnodup : keys.Nodup) (key : κ) {n : Nat} (hn : 0 < n) :
    (key :: (keys.take n).filter (· ≠ key)).take n = (key :: keys.filter (· ≠ key)).take n := by
  obtain ⟨n, rfl⟩ := Nat.exists_eq_succ_of_ne_zero (Nat.ne_of_gt hn)
  rw [Nat.succ_eq_add_one, List.take_succ_cons, List.take_succ_cons]
  congr 1
  induction keys generalizing n with
  | nil => rfl
  | cons first keys ih =>
    obtain ⟨hfirst, hnodup⟩ := List.nodup_cons.mp hnodup
    by_cases h : first = key
    · -- the key is not among the rest, from which nothing is taken out
      subst h
      have hrest : ∀ l : List κ, first ∉ l → l.filter (· ≠ first) = l := by
        intro l hl
        refine List.filter_eq_self.mpr fun k hk => ?_
        simpa using ne_of_mem_of_not_mem hk hl
      rw [List.take_succ_cons, List.filter_cons_of_neg (by simp), List.filter_cons_of_neg (by simp),
        hrest _ hfirst, hrest _ fun hmem => hfirst (List.mem_of_mem_take hmem), List.take_take,
        Nat.min_self]
    · rw [List.take_succ_cons, List.filter_cons_of_pos (by simpa using h),
        List.filter_cons_of_pos (by simpa using h)]
      cases n with
      | zero => rfl
      | succ n => rw [List.take_succ_cons, List.take_succ_cons, ih hnodup n (Nat.succ_pos n)]

end Recent

/-! ## The history of a memo -/

/-- What was done with a memo, and what came of it. -/
inductive MemoRecord (κ α : Type) where
  | put (key : κ) (v : α)
  | found (key : κ) (v : α)
  | missed (key : κ)
  | cleared

section History

variable {κ α : Type}

/-- The keys that were touched since the memo was cleared last, the latest first. -/
def touched : List (MemoRecord κ α) → List κ
  | [] => []
  | .put key _ :: records => key :: touched records
  | .found key _ :: records => key :: touched records
  | .missed _ :: records => touched records
  | .cleared :: _ => []

/-- What was put since the memo was cleared last, the latest first. -/
def putSince : List (MemoRecord κ α) → List (κ × α)
  | [] => []
  | .put key v :: records => (key, v) :: putSince records
  | .found _ _ :: records => putSince records
  | .missed _ :: records => putSince records
  | .cleared :: _ => []

/-- The keys that were put since the memo was cleared last. -/
def putKeys (records : List (MemoRecord κ α)) : List κ := (putSince records).map Prod.fst

theorem touched_of_put {records : List (MemoRecord κ α)} {key : κ} (h : key ∈ putKeys records) :
    key ∈ touched records := by
  fun_induction touched records with
  | case1 => exact h
  | case2 k v records ih =>
    rcases List.mem_cons.mp h with rfl | h
    · exact List.mem_cons_self
    · exact List.mem_cons_of_mem _ (ih h)
  | case3 k v records ih => exact List.mem_cons_of_mem _ (ih h)
  | case4 k records ih => exact ih h
  | case5 records => exact h

end History

/-! ## Memos -/

namespace Lru

variable {κ α : Type} [DecidableEq κ]

/-- The keys of a memo, the latest first. -/
def keys (memo : Lru κ α) : List κ := memo.entries.map Prod.fst

theorem keys_without (memo : Lru κ α) (key : κ) :
    (without key memo.entries).map Prod.fst = memo.keys.filter (· ≠ key) := by
  rw [without, keys, List.filter_map]
  rfl

theorem keys_put (memo : Lru κ α) (key : κ) (v : α) :
    (memo.put key v).keys = (key :: memo.keys.filter (· ≠ key)).take memo.capacity := by
  rw [keys, put, List.map_take, List.map_cons, keys_without]

theorem get_of_none {memo : Lru κ α} {key : κ} (h : memo.entries.lookup key = none) :
    memo.get key = (none, memo) := by
  rw [get, h]

theorem get_of_some {memo : Lru κ α} {key : κ} {v : α} (h : memo.entries.lookup key = some v) :
    memo.get key = (some v, { memo with entries := (key, v) :: without key memo.entries }) := by
  rw [get, h]

theorem keys_get {memo : Lru κ α} {key : κ} {v : α} (h : memo.entries.lookup key = some v) :
    (memo.get key).2.keys = key :: memo.keys.filter (· ≠ key) := by
  rw [get_of_some h, keys, List.map_cons, keys_without]

theorem exists_lookup_of_mem_keys {memo : Lru κ α} {key : κ} (h : key ∈ memo.keys) :
    ∃ v, memo.entries.lookup key = some v := by
  cases hlookup : memo.entries.lookup key with
  | some v => exact ⟨v, rfl⟩
  | none => exact absurd h (lookup_eq_none_iff_not_mem.mp hlookup)

/-- The record of looking a key up. -/
def lookupRecord (memo : Lru κ α) (key : κ) : MemoRecord κ α :=
  (memo.get key).1.elim (.missed key) (.found key)

/-- The keys of a memo are the ones touched last, as many as fit, with the values that were put
last. -/
structure Explains (records : List (MemoRecord κ α)) (memo : Lru κ α) : Prop where
  room : 0 < memo.capacity
  keys : memo.keys = (recent (touched records)).take memo.capacity
  values : ∀ key v, (key, v) ∈ memo.entries → (putSince records).lookup key = some v
  put : ∀ key ∈ touched records, key ∈ putKeys records

variable {memo : Lru κ α} {records : List (MemoRecord κ α)}

theorem explains_empty (capacity : Nat) : Explains [] (Lru.empty capacity : Lru κ α) where
  room := Nat.lt_of_lt_of_le Nat.zero_lt_one (Nat.le_max_left _ _)
  keys := List.take_nil.symm
  values _ _ h := nomatch h
  put _ h := nomatch h

namespace Explains

theorem clear (h : memo.Explains records) : memo.clear.Explains (.cleared :: records) where
  room := h.room
  keys := List.take_nil.symm
  values _ _ h := nomatch h
  put _ h := nomatch h

theorem put_record (h : memo.Explains records) (key : κ) (v : α) :
    (memo.put key v).Explains (.put key v :: records) where
  room := h.room
  keys := by
    rw [keys_put, h.keys, take_touch (nodup_recent _) key h.room]
    rfl
  values k w hmem := by
    rcases mem_of_mem_put hmem with heq | ⟨hmem, hne⟩
    · obtain ⟨rfl, rfl⟩ := Prod.mk.inj heq
      exact List.lookup_cons_self
    · rw [putSince, lookup_cons_of_ne v hne]
      exact h.values k w hmem
  put k hk := by
    rcases List.mem_cons.mp hk with rfl | hk
    · exact List.mem_cons_self
    · exact List.mem_cons_of_mem _ (h.put k hk)

/-- A key that is found was put, and all keys but the latest fit beside it. -/
theorem get_record (h : memo.Explains records) (key : κ) :
    (memo.get key).2.Explains (memo.lookupRecord key :: records) := by
  cases hlookup : memo.entries.lookup key with
  | none =>
    rw [lookupRecord, get_of_none hlookup]
    exact ⟨h.room, h.keys, h.values, h.put⟩
  | some v =>
    have hmem := mem_of_lookup_eq_some hlookup
    have hkey : key ∈ memo.keys := List.mem_map_of_mem hmem
    have hput : key ∈ putKeys records := by
      refine h.put key ?_
      rw [h.keys] at hkey
      exact mem_recent.mp (List.mem_of_mem_take hkey)
    have hfits : (key :: memo.keys.filter (· ≠ key)).length ≤ memo.capacity := by
      have hshorter : (memo.keys.filter (· ≠ key)).length < memo.keys.length :=
        List.length_filter_lt_length_iff_exists.mpr ⟨key, hkey, by simp⟩
      have hlength : memo.keys.length ≤ memo.capacity := by
        rw [h.keys]
        exact List.length_take_le _ _
      exact Nat.le_trans hshorter hlength
    refine ⟨?_, ?_, ?_, ?_⟩
    · rw [get_of_some hlookup]
      exact h.room
    · rw [keys_get hlookup, ← List.take_of_length_le hfits, h.keys,
        take_touch (nodup_recent _) key h.room, lookupRecord, get_of_some hlookup]
      rfl
    · intro k w hw
      rw [lookupRecord, get_of_some hlookup]
      exact h.values k w (mem_of_mem_get hw)
    · intro k hk
      rw [lookupRecord, get_of_some hlookup] at hk ⊢
      rcases List.mem_cons.mp hk with rfl | hk
      · exact hput
      · exact h.put k hk

/-- A key is found exactly when it was put and few others were touched after it. -/
theorem get_eq_some_iff (h : memo.Explains records) (key : κ) (v : α) :
    (memo.get key).1 = some v ↔
      (putSince records).lookup key = some v ∧
        ((touched records).takeWhile (· ≠ key)).toFinset.card < memo.capacity := by
  constructor
  · intro hfound
    have hmem := mem_of_get hfound
    have hkey : key ∈ memo.keys := List.mem_map_of_mem hmem
    rw [h.keys] at hkey
    exact ⟨h.values key v hmem, (mem_take_recent.mp hkey).2⟩
  · rintro ⟨hput, hfew⟩
    have htouched : key ∈ touched records :=
      touched_of_put (List.mem_map_of_mem (mem_of_lookup_eq_some hput))
    have hkey : key ∈ memo.keys := by
      rw [h.keys]
      exact mem_take_recent.mpr ⟨htouched, hfew⟩
    obtain ⟨w, hlookup⟩ := exists_lookup_of_mem_keys hkey
    have hvalue := h.values key w (mem_of_lookup_eq_some hlookup)
    rw [get_of_some hlookup, ← hvalue, hput]

theorem size_eq (h : memo.Explains records) :
    memo.size = min memo.capacity (putKeys records).toFinset.card := by
  have hsame : (touched records).toFinset = (putKeys records).toFinset := by
    ext key
    rw [List.mem_toFinset, List.mem_toFinset]
    exact ⟨h.put key, touched_of_put⟩
  have hlength : memo.size = memo.keys.length := by rw [size, Lru.keys, List.length_map]
  rw [hlength, h.keys, List.length_take, length_recent, hsame]

end Explains

end Lru

/-! ## Histories under another name of the keys -/

section Rename

variable {κ κ' α : Type} {f : κ → κ'}

def MemoRecord.rename (f : κ → κ') : MemoRecord κ α → MemoRecord κ' α
  | .put key v => .put (f key) v
  | .found key v => .found (f key) v
  | .missed key => .missed (f key)
  | .cleared => .cleared

theorem touched_rename (records : List (MemoRecord κ α)) :
    touched (records.map (.rename f)) = (touched records).map f := by
  fun_induction touched records with
  | case1 => rfl
  | case2 key v records ih => exact congrArg (f key :: ·) ih
  | case3 key v records ih => exact congrArg (f key :: ·) ih
  | case4 key records ih => exact ih
  | case5 records => rfl

theorem putSince_rename (records : List (MemoRecord κ α)) :
    putSince (records.map (.rename f)) = (putSince records).map (Prod.map f id) := by
  fun_induction putSince records with
  | case1 => rfl
  | case2 key v records ih => exact congrArg ((f key, v) :: ·) ih
  | case3 key v records ih => exact ih
  | case4 key records ih => exact ih
  | case5 records => rfl

theorem putKeys_rename (records : List (MemoRecord κ α)) :
    putKeys (records.map (.rename f)) = (putKeys records).map f := by
  rw [putKeys, putKeys, putSince_rename, List.map_map, List.map_map]
  rfl

variable {keys : Set κ}

theorem lookup_rename [BEq κ] [LawfulBEq κ] [BEq κ'] [LawfulBEq κ'] (hf : Set.InjOn f keys)
    {entries : List (κ × α)} (hentries : ∀ e ∈ entries, e.1 ∈ keys) {key : κ} (hkey : key ∈ keys) :
    (entries.map (Prod.map f id)).lookup (f key) = entries.lookup key := by
  induction entries with
  | nil => rfl
  | cons e entries ih =>
    obtain ⟨k, v⟩ := e
    have hk : k ∈ keys := hentries _ List.mem_cons_self
    have ih := ih fun e he => hentries e (List.mem_cons_of_mem _ he)
    rw [List.map_cons, Prod.map_apply]
    by_cases h : key = k
    · subst h
      rw [List.lookup_cons_self, List.lookup_cons_self, id]
    · rw [lookup_cons_of_ne v h, lookup_cons_of_ne _ (fun hsame => h (hf hkey hk hsame)), ih]

variable [DecidableEq κ] [DecidableEq κ']

theorem takeWhile_rename (hf : Set.InjOn f keys) {touches : List κ}
    (htouches : ∀ k ∈ touches, k ∈ keys) {key : κ} (hkey : key ∈ keys) :
    (touches.map f).takeWhile (· ≠ f key) = (touches.takeWhile (· ≠ key)).map f := by
  induction touches with
  | nil => rfl
  | cons k touches ih =>
    have hk : k ∈ keys := htouches k List.mem_cons_self
    have ih := ih fun k hk => htouches k (List.mem_cons_of_mem _ hk)
    rw [List.map_cons]
    rcases eq_or_ne k key with rfl | hne
    · rw [List.takeWhile_cons_of_neg (by simp), List.takeWhile_cons_of_neg (by simp), List.map_nil]
    · have hne' : f k ≠ f key := fun h => hne (hf hk hkey h)
      rw [List.takeWhile_cons_of_pos (by simpa using hne'),
        List.takeWhile_cons_of_pos (by simpa using hne), ih, List.map_cons]

theorem card_rename (hf : Set.InjOn f keys) {touches : List κ}
    (htouches : ∀ k ∈ touches, k ∈ keys) :
    (touches.map f).toFinset.card = touches.toFinset.card := by
  have himage : (touches.map f).toFinset = touches.toFinset.image f := by
    ext k
    simp
  rw [himage]
  refine Finset.card_image_of_injOn (hf.mono ?_)
  intro k hk
  exact htouches k (List.mem_toFinset.mp hk)

end Rename

/-! ## The cache of results -/

/-- A call to a cache of results. -/
inductive CacheCall (α : Type) where
  | set (text filename : String) (result : α)
  | get (text filename : String)
  | clear

/-- A cache, and what was done with it under the name of a file and a text, the latest first. -/
structure CacheLog (α : Type) where
  cache : ResultCache α
  records : List (MemoRecord (String × String) α) := []

/-- The text that a call is about. -/
def CacheCall.text? {α : Type} : CacheCall α → Option String
  | .set text _ _ => some text
  | .get text _ => some text
  | .clear => none

namespace CacheLog

variable {α : Type}

def take (log : CacheLog α) : CacheCall α → CacheLog α
  | .set text filename result =>
    { cache := log.cache.store text filename result
      records := .put (filename, text) result :: log.records }
  | .get text filename =>
    let step := log.cache.find text filename
    { cache := step.2
      records := step.1.elim (.missed (filename, text)) (.found (filename, text)) :: log.records }
  | .clear => { cache := log.cache.clear, records := .cleared :: log.records }

/-- Calls one after the other. -/
def takeAll (log : CacheLog α) (calls : List (CacheCall α)) : CacheLog α := calls.foldl take log

/-- The key of a file name and a text. -/
def keyOf (p : String × String) : String := ResultCache.key p.2 p.1

/-- The cache explains itself, and only texts of a set were put into it or found in it. -/
structure Sound (capacity : Nat) (texts : Set String) (log : CacheLog α) : Prop where
  capacity : log.cache.capacity = max 1 capacity
  explains : log.cache.Explains (log.records.map (.rename keyOf))
  texts : ∀ p ∈ touched log.records, p.2 ∈ texts

variable {capacity : Nat} {texts : Set String} {log : CacheLog α}

theorem sound_new (capacity : Nat) (texts : Set String) :
    Sound capacity texts ({ cache := .empty capacity } : CacheLog α) where
  capacity := rfl
  explains := Lru.explains_empty capacity
  texts _ h := nomatch h

theorem get_capacity (cache : ResultCache α) (key : String) :
    (cache.get key).2.capacity = cache.capacity := by
  cases hlookup : cache.entries.lookup key with
  | none => rw [Lru.get_of_none hlookup]
  | some result => rw [Lru.get_of_some hlookup]

/-- Every call keeps the invariant. -/
theorem Sound.take (h : log.Sound capacity texts) {call : CacheCall α}
    (htext : ∀ text ∈ call.text?, text ∈ texts) : (log.take call).Sound capacity texts := by
  cases call with
  | set text filename result =>
    refine ⟨h.capacity, h.explains.put_record (keyOf (filename, text)) result, ?_⟩
    intro p hp
    rcases List.mem_cons.mp hp with rfl | hp
    · exact htext text rfl
    · exact h.texts p hp
  | get text filename =>
    have hget := h.explains.get_record (keyOf (filename, text))
    refine ⟨(get_capacity _ _).trans h.capacity, ?_, ?_⟩
    · rw [Lru.lookupRecord] at hget
      simp only [CacheLog.take, List.map_cons, ResultCache.find]
      rw [keyOf] at hget
      cases hfound : (log.cache.get (ResultCache.key text filename)).1 <;>
        rwa [hfound] at hget
    · intro p hp
      simp only [CacheLog.take] at hp
      cases hfound : (log.cache.find text filename).1 with
      | none =>
        rw [hfound] at hp
        exact h.texts p hp
      | some result =>
        rw [hfound] at hp
        rcases List.mem_cons.mp hp with rfl | hp
        · exact htext text rfl
        · exact h.texts p hp
  | clear => exact ⟨h.capacity, h.explains.clear, nofun⟩

theorem Sound.takeAll (h : log.Sound capacity texts) {calls : List (CacheCall α)}
    (htexts : ∀ call ∈ calls, ∀ text ∈ call.text?, text ∈ texts) :
    (log.takeAll calls).Sound capacity texts := by
  induction calls generalizing log with
  | nil => exact h
  | cons call calls ih =>
    exact ih (h.take (htexts call List.mem_cons_self))
      fun call hcall => htexts call (List.mem_cons_of_mem _ hcall)

/-- File names and texts have keys of their own. -/
theorem keyOf_injOn (hdigest : Set.InjOn digestOf texts) :
    Set.InjOn keyOf {p : String × String | p.2 ∈ texts} := by
  rintro ⟨filename, text⟩ ht ⟨filename', text'⟩ ht' h
  obtain ⟨rfl, hsame⟩ := ResultCache.key_inj.mp h
  exact Prod.ext rfl (hdigest ht ht' hsame)

end CacheLog

/-- **A cache keeps what was used last.**  Take any calls to a new cache, of texts with different
digests.  Results have a key of their own for each file name and text.  A result is found exactly
when it is the one that was put last for its file name and text since the cache was cleared, and
fewer others than fit were touched since that one was.  There are as many entries as fit, or as many
as file names and texts that results were put for since the cache was cleared. -/
theorem find_eq_some_iff {α : Type} {texts : Set String} (hdigest : Set.InjOn digestOf texts)
    (capacity : Nat) {calls : List (CacheCall α)}
    (htexts : ∀ call ∈ calls, ∀ text ∈ call.text?, text ∈ texts) :
    let log := CacheLog.takeAll { cache := .empty capacity } calls
    (∀ text ∈ texts, ∀ text' ∈ texts, ∀ filename filename',
      ResultCache.key text filename = ResultCache.key text' filename' ↔
        filename = filename' ∧ text = text') ∧
    (∀ text ∈ texts, ∀ filename result,
      (log.cache.find text filename).1 = some result ↔
        (putSince log.records).lookup (filename, text) = some result ∧
          ((touched log.records).takeWhile (· ≠ (filename, text))).toFinset.card <
            max 1 capacity) ∧
    log.cache.size = min (max 1 capacity) (putKeys log.records).toFinset.card := by
  intro log
  have hsound : log.Sound capacity texts := (CacheLog.sound_new capacity texts).takeAll htexts
  have hkeys := CacheLog.keyOf_injOn hdigest
  have hput : ∀ p ∈ putKeys log.records, p.2 ∈ texts :=
    fun p hp => hsound.texts p (touched_of_put hp)
  refine ⟨?_, ?_, ?_⟩
  · intro text ht text' ht' filename filename'
    rw [ResultCache.key_inj, hdigest.eq_iff ht ht']
  · intro text ht filename result
    have hiff := hsound.explains.get_eq_some_iff (CacheLog.keyOf (filename, text)) result
    rw [putSince_rename, touched_rename,
      lookup_rename hkeys (fun e he => hput e.1 (List.mem_map_of_mem he)) ht,
      takeWhile_rename hkeys hsound.texts ht,
      card_rename hkeys (fun p hp => hsound.texts p ((List.takeWhile_sublist _).subset hp)),
      hsound.capacity] at hiff
    exact hiff
  · rw [hsound.explains.size_eq, putKeys_rename, card_rename hkeys hput, hsound.capacity]

/-! Room for two results: the first file is touched again before a third result comes, so the second
file goes, though it was put later. -/

def touchingAgain : List (CacheCall Nat) :=
  [.clear, .set "a" "f:" 1, .set "a" "f" 2, .get "a" "f:", .get "b" "f", .set "b" "f" 3]

theorem touchingAgain_keeps_first :
    let log := CacheLog.takeAll { cache := .empty 2 } touchingAgain
    (log.cache.find "a" "f:").1 = some 1 ∧ (log.cache.find "a" "f").1 ≠ some 2 ∧
      log.cache.size = 2 := by
  have htexts : ∀ call ∈ touchingAgain, ∀ text ∈ call.text?, text ∈ ({"a", "b"} : Set String) := by
    simp [touchingAgain, CacheCall.text?]
  have hne : digestOf "a" ≠ digestOf "b" := by decide +kernel
  have hdigest : Set.InjOn digestOf {"a", "b"} := Set.injOn_pair.mpr fun hsame => absurd hsame hne
  intro log
  obtain ⟨-, hfind, hsize⟩ := find_eq_some_iff hdigest 2 htexts
  have htouched : touched log.records = [("f", "b"), ("f:", "a"), ("f", "a"), ("f:", "a")] := by
    decide +kernel
  have hput : putSince log.records = [(("f", "b"), 3), (("f", "a"), 2), (("f:", "a"), 1)] := by
    decide +kernel
  refine ⟨(hfind "a" (.inl rfl) "f:" 1).mpr ⟨?_, ?_⟩, fun hfound => ?_, ?_⟩
  · rw [hput]
    rfl
  · rw [htouched]
    decide
  · have hfew := ((hfind "a" (.inl rfl) "f" 2).mp hfound).2
    rw [htouched] at hfew
    exact absurd hfew (by decide)
  · rw [hsize, putKeys, hput]
    rfl

end MemoHints
