/-!
# Least recently used

A memo of bounded size. Finding a key and putting one make it the latest; a new key at full size
takes the place of the one that was used the longest ago.
-/

namespace MemoHints

/-- Keys and values, the latest first. -/
structure Lru (κ α : Type) where
  capacity : Nat
  entries : List (κ × α) := []

namespace Lru

variable {κ α : Type} [DecidableEq κ]

/-- A memo without entries. It holds at least one. -/
def empty (capacity : Nat) : Lru κ α := { capacity := max 1 capacity }

/-- The entries without a key. -/
def without (key : κ) (entries : List (κ × α)) : List (κ × α) := entries.filter (·.1 ≠ key)

/-- The value of a key, which becomes the latest. -/
def get (memo : Lru κ α) (key : κ) : Option α × Lru κ α :=
  match memo.entries.lookup key with
  | some v => (some v, { memo with entries := (key, v) :: without key memo.entries })
  | none => (none, memo)

/-- Puts a value, which becomes the latest. -/
def put (memo : Lru κ α) (key : κ) (v : α) : Lru κ α :=
  { memo with entries := ((key, v) :: without key memo.entries).take memo.capacity }

/-- Takes all entries away. -/
def clear (memo : Lru κ α) : Lru κ α := { memo with entries := [] }

def size (memo : Lru κ α) : Nat := memo.entries.length

end Lru

end MemoHints
