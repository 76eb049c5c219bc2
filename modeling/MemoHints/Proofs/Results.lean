import Mathlib.Data.List.Forall2

/-!
# Results and errors

What a step that may fail says of its parts.
-/

namespace MemoHints

variable {ε α β : Type}

theorem bind_eq_ok {x : Except ε α} {f : α → Except ε β} {b : β} :
    (x >>= f) = .ok b ↔ ∃ a, x = .ok a ∧ f a = .ok b := by
  cases x <;> simp [bind, Except.bind]

theorem bind_ne_error {x : Except ε α} {f : α → Except ε β} {e : ε} (hx : x ≠ .error e)
    (hf : ∀ a, f a ≠ .error e) : x >>= f ≠ .error e := by
  cases x with
  | error e' =>
    intro h
    cases h
    exact hx rfl
  | ok a => exact hf a

theorem foldlM_ne_error {step : α → β → Except ε α} {e : ε} (h : ∀ a b, step a b ≠ .error e)
    (a : α) (bs : List β) : bs.foldlM step a ≠ .error e := by
  induction bs generalizing a with
  | nil => nofun
  | cons b bs ih => exact bind_ne_error (h a b) ih

theorem except_map_eq (f : α → β) (x : Except ε α) : x.map f = f <$> x := rfl

theorem toOption_eq_some_iff {x : Except ε α} {a : α} : x.toOption = some a ↔ x = .ok a := by
  cases x <;> simp [Except.toOption]

theorem toOption_map (f : α → β) (x : Except ε α) : (x.map f).toOption = x.toOption.map f := by
  cases x <;> rfl

/-- A step succeeds on a list if it does on every item, and gives the results in their order. -/
theorem mapM_eq_ok_iff {f : α → Except ε β} {xs : List α} {ys : List β} :
    xs.mapM f = .ok ys ↔ List.Forall₂ (fun x y => f x = .ok y) xs ys := by
  induction xs generalizing ys with
  | nil =>
    rw [List.mapM_nil, List.forall₂_nil_left_iff]
    exact ⟨fun h => (Except.ok.inj h).symm, fun h => congrArg _ h.symm⟩
  | cons x xs ih =>
    rw [List.mapM_cons, bind_eq_ok, List.forall₂_cons_left_iff]
    simp only [bind_eq_ok, ih]
    constructor
    · rintro ⟨y, hy, ys, hys, h⟩
      exact ⟨y, ys, hy, hys, (Except.ok.inj h).symm⟩
    · rintro ⟨y, ys, hy, hys, rfl⟩
      exact ⟨y, hy, ys, hys, rfl⟩

/-- Whatever is in the list of results is the result of an item. -/
theorem exists_of_mem_mapM {f : α → Except ε β} {xs : List α} {ys : List β}
    (h : xs.mapM f = .ok ys) {y : β} (hy : y ∈ ys) : ∃ x ∈ xs, f x = .ok y := by
  induction mapM_eq_ok_iff.mp h with
  | nil => cases hy
  | @cons x z xs zs hx hrest ih =>
    rcases List.mem_cons.mp hy with rfl | hy
    · exact ⟨x, List.mem_cons_self, hx⟩
    · obtain ⟨x', hx', hy'⟩ := ih (mapM_eq_ok_iff.mpr hrest) hy
      exact ⟨x', List.mem_cons_of_mem x hx', hy'⟩

/-- A step that undoes a function on each item undoes it on the list. -/
theorem mapM_map_eq_ok {f : β → Except ε α} {g : α → β} {xs : List α}
    (h : ∀ x ∈ xs, f (g x) = .ok x) : (xs.map g).mapM f = .ok xs := by
  induction xs with
  | nil => rfl
  | cons x xs ih =>
    obtain ⟨hx, hxs⟩ := List.forall_mem_cons.mp h
    rw [List.map_cons, List.mapM_cons, hx, ih hxs]
    rfl

/-- Changing the result of one item changes it in the list of results. -/
theorem mapM_modify {f : α → Except ε β} {g : β → β} {x y : α} (h : f y = (f x).map g)
    (front back : List α) :
    (front ++ y :: back).mapM f =
      ((front ++ x :: back).mapM f).map (·.modify front.length g) := by
  induction front with
  | nil =>
    simp only [List.nil_append, List.mapM_cons, h]
    cases f x with
    | error e => rfl
    | ok b => cases back.mapM f <;> rfl
  | cons a front ih =>
    simp only [List.cons_append, List.mapM_cons, ih]
    cases f a with
    | error e => rfl
    | ok b => cases (front ++ x :: back).mapM f <;> rfl

/-- What every step leaves outside stays outside the whole run. -/
theorem foldlM_map {step : α → β → Except ε α} {f : α → α}
    (h : ∀ a b, step (f a) b = (step a b).map f) (a : α) (bs : List β) :
    bs.foldlM step (f a) = (bs.foldlM step a).map f := by
  induction bs generalizing a with
  | nil => rfl
  | cons b bs ih =>
    rw [List.foldlM_cons, List.foldlM_cons, h]
    cases step a b with
    | error e => rfl
    | ok a' => exact ih a'

end MemoHints
