import Mathlib.Logic.Function.Basic
import MemoHints.Compiler.Cache
import MemoHints.Proofs.Entries

/-!
# Keys and entries of the result cache

A key is the name of a file, a colon and the digest of a text.  Names may hold colons themselves, so
a key can be taken apart only because a digest always has 64 digits.  Of the memo behind the cache
only one thing matters to those who keep results in it: whatever is found in it was put there, and
no operation but `put` adds an entry.
-/

namespace MemoHints

/-! ## Digests as text -/

namespace Text

/-- Digits tell the lowest sixteenth of a number. -/
theorem hexDigit_inj {m n : Nat} : hexDigit m = hexDigit n ↔ m % 16 = n % 16 := by
  have small : ∀ a b : Fin 16, Nat.digitChar a = Nat.digitChar b → a = b := by decide
  constructor
  · intro h
    have hm : m % 16 < 16 := Nat.mod_lt _ (by decide)
    have hn : n % 16 < 16 := Nat.mod_lt _ (by decide)
    exact congrArg Fin.val (small ⟨m % 16, hm⟩ ⟨n % 16, hn⟩ h)
  · intro h
    rw [hexDigit, hexDigit, h]

end Text

namespace Blake3

@[simp] theorem wordHex_length (w : UInt32) : (wordHex w).length = 8 := rfl

theorem wordHex_injective : Function.Injective wordHex := by
  intro w v h
  simp only [wordHex, List.map_cons, List.map_nil, List.cons.injEq, Text.hexDigit_inj,
    and_true] at h
  have hw := w.toNat_lt
  have hv := v.toNat_lt
  apply UInt32.toNat.inj
  omega

/-- Words of a fixed number of digits can be told apart when they stand one after the other. -/
theorem flatMap_wordHex_injective :
    Function.Injective fun ws : List UInt32 => ws.flatMap wordHex := by
  intro ws vs h
  simp only at h
  induction ws generalizing vs with
  | nil =>
    cases vs with
    | nil => rfl
    | cons v vs => simp [wordHex] at h
  | cons w ws ih =>
    cases vs with
    | nil => simp [wordHex] at h
    | cons v vs =>
      rw [List.flatMap_cons, List.flatMap_cons] at h
      obtain ⟨hw, hws⟩ := List.append_inj h (by simp)
      rw [wordHex_injective hw, ih hws]

theorem Row.toList_injective : Function.Injective Row.toList := by
  intro r s h
  cases r; cases s
  simpa [Row.toList] using h

theorem Chain.toList_injective : Function.Injective Chain.toList := by
  intro c d h
  obtain ⟨hlow, hhigh⟩ := List.append_inj h rfl
  have hlow := Row.toList_injective hlow
  have hhigh := Row.toList_injective hhigh
  cases c; cases d
  exact congr (congrArg Chain.mk hlow) hhigh

@[simp] theorem Chain.hex_length (c : Chain) : c.hex.length = 64 := by
  rw [Chain.hex, String.length_ofList]
  rfl

/-- The digits of a digest determine it. -/
theorem Chain.hex_injective : Function.Injective Chain.hex := by
  intro c d h
  exact Chain.toList_injective (flatMap_wordHex_injective (String.ofList_injective h))

end Blake3

/-! ## Keys -/

namespace ResultCache

/-- Two keys are the same only for one file name and texts of one digest. -/
theorem key_inj {text text' filename filename' : String} :
    key text filename = key text' filename' ↔
      filename = filename' ∧ digestOf text = digestOf text' := by
  constructor
  · intro h
    have chars := congrArg String.toList h
    simp only [key, String.toList_append] at chars
    have digits : (digestOf text).hex.toList.length = (digestOf text').hex.toList.length := by
      rw [String.length_toList, String.length_toList, Blake3.Chain.hex_length,
        Blake3.Chain.hex_length]
    obtain ⟨hname, hhex⟩ := List.append_inj' chars digits
    have hname := (List.append_inj' hname rfl).1
    exact ⟨String.toList_injective hname, Blake3.Chain.hex_injective (String.toList_injective hhex)⟩
  · rintro ⟨rfl, h⟩
    rw [key, key, h]

end ResultCache

/-! ## Entries -/

namespace Lru

variable {κ α : Type} [DecidableEq κ]

theorem mem_without {key : κ} {entries : List (κ × α)} {e : κ × α} :
    e ∈ without key entries ↔ e ∈ entries ∧ e.1 ≠ key := by
  rw [without, List.mem_filter, decide_eq_true_iff]

omit [DecidableEq κ] in
@[simp] theorem clear_entries (memo : Lru κ α) : memo.clear.entries = [] := rfl

/-- Whatever is found is an entry. -/
theorem mem_of_get {memo : Lru κ α} {key : κ} {v : α} (h : (memo.get key).1 = some v) :
    (key, v) ∈ memo.entries := by
  unfold get at h
  split at h
  · next found lookup =>
    cases h
    exact mem_of_lookup_eq_some lookup
  · cases h

/-- Looking up adds no entry. -/
theorem mem_of_mem_get {memo : Lru κ α} {key : κ} {e : κ × α}
    (h : e ∈ (memo.get key).2.entries) : e ∈ memo.entries := by
  cases found : memo.entries.lookup key with
  | none =>
    simp only [get, found] at h
    exact h
  | some v =>
    have hv : (key, v) ∈ memo.entries := mem_of_get (by simp [get, found])
    simp only [get, found, List.mem_cons] at h
    rcases h with rfl | h
    · exact hv
    · exact (mem_without.mp h).1

/-- Putting adds one entry, and takes the one that had its key away. -/
theorem mem_of_mem_put {memo : Lru κ α} {key : κ} {v : α} {e : κ × α}
    (h : e ∈ (memo.put key v).entries) : e = (key, v) ∨ e ∈ memo.entries ∧ e.1 ≠ key := by
  have h := List.mem_of_mem_take h
  rcases List.mem_cons.mp h with h | h
  · exact .inl h
  · exact .inr (mem_without.mp h)

end Lru

end MemoHints
