import Mathlib.Algebra.BigOperators.Group.List.Basic
import Mathlib.Data.List.Perm.Basic
import Mathlib.Data.List.Range
import MemoHints.Numbers
import MemoHints.Proofs.Report.Workers

/-!
# Workers whose steps come in any order

`WorkerPool.run` lets one worker after the other go on.  Here the workers of a pool take turns in
any order: each claims the next place, works on the item there and stores the result, and other
workers may come between any two of these.  The places whose items were worked on are written down
beside the pool, and nothing reads them.

## Why nothing is lost

A place below the cursor that is still empty is held by exactly one worker, and no other place is
held (`WorkingPool.Sound`).  So a worker always stores where nothing is stored yet, and when all
have stopped, there is no empty place left.  They do stop: every step that does anything takes one
from `WorkingPool.left`.
-/

namespace MemoHints

/-- A pool at work, and the places whose items were worked on, the latest first. -/
structure WorkingPool (β : Type) where
  pool : WorkerPool β
  worked : List Nat := []

/-- What a worker does at once. -/
inductive WorkerStep where
  | claim (worker : Nat)
  | work (worker : Nat)
  | store (worker : Nat)

namespace WorkerStage

variable {β : Type}

/-- The place that a worker has claimed and not filled yet. -/
def place? : WorkerStage β → Option Nat
  | .claimed i => some i
  | .finished i _ => some i
  | .idle | .stopped => none

/-- How many steps a worker takes until it is idle, and one to stop. -/
def left : WorkerStage β → Nat
  | .claimed _ => 3
  | .finished _ _ => 2
  | .idle => 1
  | .stopped => 0

end WorkerStage

/-- A worker holds a place that it has claimed and not filled yet. -/
def WorkerPool.Holds {β : Type} (pool : WorkerPool β) (worker place : Nat) : Prop :=
  pool.workers[worker]?.bind WorkerStage.place? = some place

namespace WorkingPool

variable {α β : Type}

/-- The step of a worker that is told to do what it is not up to does nothing. -/
def take (items : List α) (value : α → β) (s : WorkingPool β) : WorkerStep → WorkingPool β
  | .claim w =>
    match s.pool.workers[w]? with
    | some .idle => { s with pool := s.pool.claim w }
    | _ => s
  | .work w =>
    match s.pool.workers[w]? with
    | some (.claimed i) =>
      match items[i]? with
      | some item => { pool := s.pool.finish w i (value item), worked := i :: s.worked }
      | none => s
    | _ => s
  | .store w =>
    match s.pool.workers[w]? with
    | some (.finished i result) => { s with pool := s.pool.store w i result }
    | _ => s

/-- Steps one after the other. -/
def takeAll (items : List α) (value : α → β) (s : WorkingPool β) (steps : List WorkerStep) :
    WorkingPool β :=
  steps.foldl (take items value) s

theorem takeAll_append (items : List α) (value : α → β) (s : WorkingPool β)
    (steps more : List WorkerStep) :
    s.takeAll items value (steps ++ more) =
      (s.takeAll items value steps).takeAll items value more :=
  List.foldl_append

def AllStopped (s : WorkingPool β) : Prop := ∀ stage ∈ s.pool.workers, stage = .stopped

/-- How many steps are left until all workers have stopped. -/
def left (s : WorkingPool β) : Nat :=
  3 * (s.pool.slots.length - s.pool.cursor) + (s.pool.workers.map WorkerStage.left).sum

/-! ## The invariant -/

/-- Places below the cursor are filled or held by one worker, and each of their items is worked on
once at most. -/
structure Sound (items : List α) (value : α → β) (s : WorkingPool β) : Prop where
  length : s.pool.slots.length = items.length
  held_iff : ∀ i, (∃ w, s.pool.Holds w i) ↔ i < s.pool.cursor ∧ s.pool.slots[i]? = some none
  held_once : ∀ w w' i, s.pool.Holds w i → s.pool.Holds w' i → w = w'
  empty : ∀ i : Nat, s.pool.cursor ≤ i → ∀ result, s.pool.slots[i]? ≠ some (some result)
  exhausted : ∀ w : Nat, s.pool.workers[w]? = some .stopped → s.pool.slots.length ≤ s.pool.cursor
  stored : ∀ (i : Nat) result, s.pool.slots[i]? = some (some result) →
    items[i]?.map value = some result
  finished : ∀ (w i : Nat) result, s.pool.workers[w]? = some (.finished i result) →
    items[i]?.map value = some result
  worked_once : s.worked.Nodup
  worked_iff : ∀ i, i ∈ s.worked ↔ (∃ result, s.pool.slots[i]? = some (some result)) ∨
    ∃ (w : Nat) (result : β), s.pool.workers[w]? = some (.finished i result)

section Start

variable {limit n : Nat}

theorem eq_idle_of_start {w : Nat} {stage : WorkerStage β}
    (h : (WorkerPool.start limit n).workers[w]? = some stage) : stage = .idle :=
  List.eq_of_mem_replicate (List.mem_of_getElem? h)

theorem eq_none_of_start {i : Nat} {slot : Option β}
    (h : (WorkerPool.start limit n).slots[i]? = some slot) : slot = none :=
  List.eq_of_mem_replicate (List.mem_of_getElem? h)

theorem not_holds_start (w i : Nat) :
    ¬ (WorkerPool.start limit n : WorkerPool β).Holds w i := by
  intro h
  obtain ⟨stage, hstage, hplace⟩ := Option.bind_eq_some_iff.mp h
  obtain rfl := eq_idle_of_start hstage
  cases hplace

end Start

theorem sound_start (items : List α) (value : α → β) (limit : Nat) :
    Sound items value { pool := .start limit items.length } where
  length := List.length_replicate
  held_iff i := by
    constructor
    · rintro ⟨w, hw⟩
      exact absurd hw (not_holds_start w i)
    · rintro ⟨hlt, -⟩
      exact absurd hlt (Nat.not_lt_zero i)
  held_once w w' i hw := absurd hw (not_holds_start w i)
  empty i _ result h := nomatch eq_none_of_start h
  exhausted w h := nomatch eq_idle_of_start h
  stored i result h := nomatch eq_none_of_start h
  finished w i result h := nomatch eq_idle_of_start h
  worked_once := List.nodup_nil
  worked_iff i := by
    constructor
    · intro h
      cases h
    · rintro (⟨result, h⟩ | ⟨w, result, h⟩)
      · exact nomatch eq_none_of_start h
      · exact nomatch eq_idle_of_start h

variable {items : List α} {value : α → β} {s : WorkingPool β}

/-- The stages of the workers when one of them is at another. -/
theorem stage_of_set {workers : List (WorkerStage β)} {w : Nat} (hw : w < workers.length)
    {stage stage' : WorkerStage β} (w' : Nat) :
    (workers.set w stage)[w']? = some stage' ↔
      (w' = w ∧ stage = stage') ∨ (w' ≠ w ∧ workers[w']? = some stage') := by
  rcases eq_or_ne w' w with rfl | h
  · simp [List.getElem?_set_self hw]
  · simp [List.getElem?_set_ne h.symm, h]

theorem holds_iff {pool : WorkerPool β} {w i : Nat} :
    pool.Holds w i ↔ ∃ stage, pool.workers[w]? = some stage ∧ stage.place? = some i :=
  Option.bind_eq_some_iff

section Set

variable {pool pool' : WorkerPool β} {w : Nat} {stage stage' : WorkerStage β}

/-- What the workers hold when one of them is at another stage. -/
theorem holds_of_set (hset : pool'.workers = pool.workers.set w stage)
    (hw : w < pool.workers.length) (w' i : Nat) :
    pool'.Holds w' i ↔ (w' = w ∧ stage.place? = some i) ∨ (w' ≠ w ∧ pool.Holds w' i) := by
  simp only [holds_iff, hset, stage_of_set hw]
  constructor
  · rintro ⟨_, ⟨rfl, rfl⟩ | ⟨hne, hstage⟩, hplace⟩
    · exact .inl ⟨rfl, hplace⟩
    · exact .inr ⟨hne, _, hstage, hplace⟩
  · rintro (⟨rfl, hplace⟩ | ⟨hne, _, hstage, hplace⟩)
    · exact ⟨_, .inl ⟨rfl, rfl⟩, hplace⟩
    · exact ⟨_, .inr ⟨hne, hstage⟩, hplace⟩

/-- A worker that goes on to a stage at the same place holds what it held. -/
theorem holds_of_set_of_place (hset : pool'.workers = pool.workers.set w stage')
    (hw : pool.workers[w]? = some stage) (hplace : stage'.place? = stage.place?) (w' i : Nat) :
    pool'.Holds w' i ↔ pool.Holds w' i := by
  rw [holds_of_set hset (List.getElem?_eq_some_iff.mp hw).1]
  rcases eq_or_ne w' w with rfl | hne
  · rw [WorkerPool.Holds, hw, Option.bind_some, hplace]
    simp
  · simp [hne]

end Set

/-- A worker that goes from one stage to another without a result leaves the results as they are. -/
theorem finished_of_set {workers : List (WorkerStage β)} {w : Nat} {stage : WorkerStage β}
    (hw : workers[w]? = some stage) (stage' : WorkerStage β)
    (hold : ∀ i result, stage ≠ .finished i result)
    (hnew : ∀ i result, stage' ≠ .finished i result) (w' i : Nat) (result : β) :
    (workers.set w stage')[w']? = some (.finished i result) ↔
      workers[w']? = some (.finished i result) := by
  rw [stage_of_set (List.getElem?_eq_some_iff.mp hw).1]
  constructor
  · rintro (⟨-, hstage⟩ | ⟨-, hfinished⟩)
    · exact absurd hstage (hnew i result)
    · exact hfinished
  · intro hfinished
    refine .inr ⟨?_, hfinished⟩
    rintro rfl
    exact hold i result (Option.some.inj (hw.symm.trans hfinished))

namespace Sound

/-- The place at the cursor is held by nobody. -/
theorem not_holds_cursor (h : s.Sound items value) (w : Nat) : ¬ s.pool.Holds w s.pool.cursor := by
  intro held
  exact absurd ((h.held_iff _).mp ⟨w, held⟩).1 (Nat.lt_irrefl _)

/-- The place at the cursor is empty. -/
theorem slot_cursor (h : s.Sound items value) (hleft : s.pool.cursor < s.pool.slots.length) :
    s.pool.slots[s.pool.cursor]? = some none := by
  cases hslot : s.pool.slots[s.pool.cursor]? with
  | none => exact absurd hleft (Nat.not_lt.mpr (List.getElem?_eq_none_iff.mp hslot))
  | some slot =>
    cases slot with
    | none => rfl
    | some result => exact absurd hslot (h.empty _ (Nat.le_refl _) result)

/-- An idle worker claims a place: it is empty, and nobody else holds it. -/
theorem claim (h : s.Sound items value) {w : Nat} (hidle : s.pool.workers[w]? = some .idle)
    (hleft : s.pool.cursor < s.pool.slots.length) :
    Sound items value { s with pool := s.pool.claim w } := by
  have hworkers : (s.pool.claim w).workers = s.pool.workers.set w (.claimed s.pool.cursor) := by
    rw [WorkerPool.claim, if_pos hleft]
  have hholds := holds_of_set hworkers (List.getElem?_eq_some_iff.mp hidle).1
  have hfinished := finished_of_set hidle (.claimed s.pool.cursor) (by rintro _ _ ⟨⟩)
    (by rintro _ _ ⟨⟩)
  refine
    { length := h.length
      held_iff := ?_
      held_once := ?_
      empty := fun i hi => h.empty i (Nat.le_of_succ_le hi)
      exhausted := ?_
      stored := h.stored
      finished := ?_
      worked_once := h.worked_once
      worked_iff := ?_ }
  · intro i
    simp only [hholds]
    constructor
    · rintro ⟨w', ⟨rfl, hplace⟩ | ⟨-, held⟩⟩
      · obtain rfl := Option.some.inj hplace
        exact ⟨Nat.lt_succ_self _, h.slot_cursor hleft⟩
      · obtain ⟨hlt, hslot⟩ := (h.held_iff i).mp ⟨w', held⟩
        exact ⟨Nat.lt_succ_of_lt hlt, hslot⟩
    · rintro ⟨hlt, hslot⟩
      rcases Nat.lt_succ_iff_lt_or_eq.mp hlt with hlt | rfl
      · obtain ⟨w', held⟩ := (h.held_iff i).mpr ⟨hlt, hslot⟩
        refine ⟨w', .inr ⟨?_, held⟩⟩
        rintro rfl
        rw [WorkerPool.Holds, hidle] at held
        cases held
      · exact ⟨w, .inl ⟨rfl, rfl⟩⟩
  · intro w' w'' i held held'
    rw [hholds] at held held'
    rcases held with ⟨rfl, hplace⟩ | ⟨-, held⟩
    · obtain rfl := Option.some.inj hplace
      rcases held' with ⟨rfl, -⟩ | ⟨-, held'⟩
      · rfl
      · exact absurd held' (h.not_holds_cursor w'')
    · rcases held' with ⟨rfl, hplace'⟩ | ⟨-, held'⟩
      · obtain rfl := Option.some.inj hplace'
        exact absurd held (h.not_holds_cursor w')
      · exact h.held_once w' w'' i held held'
  · intro w' hover
    rw [hworkers, stage_of_set (List.getElem?_eq_some_iff.mp hidle).1] at hover
    rcases hover with ⟨-, hclaimed⟩ | ⟨-, hover⟩
    · cases hclaimed
    · exact Nat.le_succ_of_le (h.exhausted w' hover)
  · simp only [hworkers, hfinished]
    exact h.finished
  · simp only [hworkers, hfinished]
    exact h.worked_iff

/-- An idle worker finds no place left and stops. -/
theorem stop (h : s.Sound items value) {w : Nat} (hidle : s.pool.workers[w]? = some .idle)
    (hleft : ¬ s.pool.cursor < s.pool.slots.length) :
    Sound items value { s with pool := s.pool.claim w } := by
  have hworkers : (s.pool.claim w).workers = s.pool.workers.set w .stopped := by
    rw [WorkerPool.claim, if_neg hleft]
  have hholds := holds_of_set_of_place hworkers hidle rfl
  have hfinished := finished_of_set hidle .stopped (by rintro _ _ ⟨⟩) (by rintro _ _ ⟨⟩)
  refine
    { length := h.length
      held_iff := ?_
      held_once := ?_
      empty := fun i hi => h.empty i (Nat.le_of_succ_le hi)
      exhausted := fun _ _ => Nat.le_succ_of_le (Nat.not_lt.mp hleft)
      stored := h.stored
      finished := ?_
      worked_once := h.worked_once
      worked_iff := ?_ }
  · intro i
    simp only [hholds, h.held_iff]
    refine and_congr_left ?_
    intro hslot
    have hlt := (List.getElem?_eq_some_iff.mp hslot).1
    exact ⟨Nat.lt_succ_of_lt, fun _ => Nat.lt_of_lt_of_le hlt (Nat.not_lt.mp hleft)⟩
  · simp only [hholds]
    exact h.held_once
  · simp only [hworkers, hfinished]
    exact h.finished
  · simp only [hworkers, hfinished]
    exact h.worked_iff

/-- A worker works on the item at its place, which nobody has worked on. -/
theorem work (h : s.Sound items value) {w i : Nat}
    (hclaimed : s.pool.workers[w]? = some (.claimed i)) {item : α} (hitem : items[i]? = some item) :
    Sound items value { pool := s.pool.finish w i (value item), worked := i :: s.worked } := by
  have hw := (List.getElem?_eq_some_iff.mp hclaimed).1
  have held : s.pool.Holds w i := holds_iff.mpr ⟨_, hclaimed, rfl⟩
  have hholds : ∀ w' i', (s.pool.finish w i (value item)).Holds w' i' ↔ s.pool.Holds w' i' :=
    holds_of_set_of_place rfl hclaimed rfl
  have hempty := ((h.held_iff i).mp ⟨w, held⟩).2
  -- whoever has a result for the place holds it, and only this worker does
  have hnone : ∀ (w' : Nat) (result : β), s.pool.workers[w']? ≠ some (.finished i result) := by
    intro w' result hfinished
    obtain rfl := h.held_once w' w i (holds_iff.mpr ⟨_, hfinished, rfl⟩) held
    rw [hclaimed] at hfinished
    cases hfinished
  refine
    { length := h.length
      held_iff := ?_
      held_once := ?_
      empty := h.empty
      exhausted := ?_
      stored := h.stored
      finished := ?_
      worked_once := ?_
      worked_iff := ?_ }
  · simp only [hholds]
    exact h.held_iff
  · simp only [hholds]
    exact h.held_once
  · intro w' hover
    rw [WorkerPool.finish, stage_of_set hw] at hover
    rcases hover with ⟨-, hfinished⟩ | ⟨-, hover⟩
    · cases hfinished
    · exact h.exhausted w' hover
  · intro w' i' result hfinished
    simp only [WorkerPool.finish, stage_of_set hw] at hfinished
    rcases hfinished with ⟨-, hthis⟩ | ⟨-, hfinished⟩
    · cases hthis
      rw [hitem, Option.map_some]
    · exact h.finished w' i' result hfinished
  · refine List.nodup_cons.mpr ⟨?_, h.worked_once⟩
    rw [h.worked_iff]
    rintro (⟨result, hstored⟩ | ⟨w', result, hfinished⟩)
    · rw [hempty] at hstored
      cases hstored
    · exact hnone w' result hfinished
  · intro i'
    simp only [List.mem_cons, h.worked_iff, WorkerPool.finish, stage_of_set hw]
    constructor
    · rintro (rfl | hstored | ⟨w', result, hfinished⟩)
      · exact .inr ⟨w, value item, .inl ⟨rfl, rfl⟩⟩
      · exact .inl hstored
      · refine .inr ⟨w', result, .inr ⟨?_, hfinished⟩⟩
        rintro rfl
        rw [hclaimed] at hfinished
        cases hfinished
    · rintro (hstored | ⟨w', result, ⟨-, hthis⟩ | ⟨-, hfinished⟩⟩)
      · exact .inr (.inl hstored)
      · cases hthis
        exact .inl rfl
      · exact .inr (.inr ⟨w', result, hfinished⟩)

/-- A worker stores its result at its place, which is empty. -/
theorem store (h : s.Sound items value) {w i : Nat} {result : β}
    (hthis : s.pool.workers[w]? = some (.finished i result)) :
    Sound items value { s with pool := s.pool.store w i result } := by
  have hw := (List.getElem?_eq_some_iff.mp hthis).1
  have held : s.pool.Holds w i := holds_iff.mpr ⟨_, hthis, rfl⟩
  obtain ⟨hcursor, hempty⟩ := (h.held_iff i).mp ⟨w, held⟩
  have hworkers : (s.pool.store w i result).workers = s.pool.workers.set w .idle := rfl
  have hholds : ∀ w' i', (s.pool.store w i result).Holds w' i' ↔
      w' ≠ w ∧ s.pool.Holds w' i' := by
    intro w' i'
    rw [holds_of_set hworkers hw]
    simp [WorkerStage.place?]
  have hslot : ∀ i', (s.pool.store w i result).slots[i']? =
      if i = i' then some (some result) else s.pool.slots[i']? := by
    intro i'
    rw [WorkerPool.store, List.getElem?_set, if_pos (List.getElem?_eq_some_iff.mp hempty).1]
  have hstage : ∀ (w' i' : Nat) (result' : β),
      (s.pool.store w i result).workers[w']? = some (.finished i' result') ↔
        w' ≠ w ∧ s.pool.workers[w']? = some (.finished i' result') := by
    intro w' i' result'
    rw [WorkerPool.store, stage_of_set hw]
    simp
  refine
    { length := List.length_set.trans h.length
      held_iff := ?_
      held_once := ?_
      empty := ?_
      exhausted := ?_
      stored := ?_
      finished := ?_
      worked_once := h.worked_once
      worked_iff := ?_ }
  · intro i'
    simp only [hholds, hslot]
    rcases eq_or_ne i i' with rfl | hne
    · simp only [if_pos, Option.some.injEq, reduceCtorEq, and_false, iff_false]
      rintro ⟨w', hne, held'⟩
      exact hne (h.held_once w' w i held' held)
    · rw [if_neg hne]
      refine Iff.trans (exists_congr fun w' => and_iff_right_of_imp ?_) (h.held_iff i')
      rintro held' rfl
      obtain ⟨stage, hstage, hplace⟩ := holds_iff.mp held'
      obtain rfl := Option.some.inj (hthis.symm.trans hstage)
      exact hne (Option.some.inj hplace)
  · intro w' w'' i' held' held''
    rw [hholds] at held' held''
    exact h.held_once w' w'' i' held'.2 held''.2
  · intro i' hi' result' hstored
    rw [hslot, if_neg (Nat.ne_of_lt (Nat.lt_of_lt_of_le hcursor hi'))] at hstored
    exact h.empty i' hi' result' hstored
  · intro w' hover
    rw [WorkerPool.store, stage_of_set hw] at hover
    rcases hover with ⟨-, hidle⟩ | ⟨-, hover⟩
    · cases hidle
    · rw [WorkerPool.store, List.length_set]
      exact h.exhausted w' hover
  · intro i' result' hstored
    rw [hslot] at hstored
    split at hstored
    · next heq =>
      subst heq
      obtain rfl := Option.some.inj (Option.some.inj hstored)
      exact h.finished w i result hthis
    · exact h.stored i' result' hstored
  · intro w' i' result' hfinished
    rw [hstage] at hfinished
    exact h.finished w' i' result' hfinished.2
  · intro i'
    simp only [h.worked_iff, hslot, hstage]
    rcases eq_or_ne i i' with rfl | hne
    · simp only [if_pos, Option.some.injEq, exists_eq', true_or, iff_true]
      exact .inr ⟨w, result, hthis⟩
    · rw [if_neg hne]
      refine or_congr Iff.rfl (exists_congr fun w' => exists_congr fun result' => ?_)
      refine (and_iff_right_of_imp ?_).symm
      rintro hfinished rfl
      cases hthis.symm.trans hfinished
      exact hne rfl

/-- Every step keeps the invariant. -/
theorem take (h : s.Sound items value) (step : WorkerStep) :
    (s.take items value step).Sound items value := by
  cases step with
  | claim w =>
    simp only [WorkingPool.take]
    split
    · next hidle =>
      by_cases hleft : s.pool.cursor < s.pool.slots.length
      · exact h.claim hidle hleft
      · exact h.stop hidle hleft
    · exact h
  | work w =>
    simp only [WorkingPool.take]
    split
    · next i hclaimed =>
      split
      · next item hitem => exact h.work hclaimed hitem
      · exact h
    · exact h
  | store w =>
    simp only [WorkingPool.take]
    split
    · next i result hfinished => exact h.store hfinished
    · exact h

theorem takeAll (h : s.Sound items value) (steps : List WorkerStep) :
    (s.takeAll items value steps).Sound items value := by
  induction steps generalizing s with
  | nil => exact h
  | cons step steps ih => exact ih (h.take step)

/-- When all workers have stopped every place is filled. -/
theorem slots_eq (h : s.Sound items value) (hpos : s.pool.workers ≠ [])
    (hstopped : s.AllStopped) : s.pool.slots = items.map fun item => some (value item) := by
  obtain ⟨stage, others, hworkers⟩ := List.exists_cons_of_ne_nil hpos
  have hover : s.pool.slots.length ≤ s.pool.cursor := by
    refine h.exhausted 0 ?_
    rw [hworkers, List.getElem?_cons_zero, hstopped stage (hworkers ▸ List.mem_cons_self)]
  have hfree : ∀ w i, ¬ s.pool.Holds w i := by
    intro w i held
    obtain ⟨stage, hstage, hplace⟩ := holds_iff.mp held
    obtain rfl := hstopped stage (List.mem_of_getElem? hstage)
    cases hplace
  refine List.ext_getElem? fun i => ?_
  rw [List.getElem?_map]
  cases hslot : s.pool.slots[i]? with
  | none =>
    have hlen := List.getElem?_eq_none_iff.mp hslot
    rw [h.length] at hlen
    rw [List.getElem?_eq_none_iff.mpr hlen, Option.map_none]
  | some slot =>
    cases slot with
    | none =>
      have hlt := (List.getElem?_eq_some_iff.mp hslot).1
      obtain ⟨w, held⟩ := (h.held_iff i).mpr ⟨Nat.lt_of_lt_of_le hlt hover, hslot⟩
      exact absurd held (hfree w i)
    | some result =>
      obtain ⟨item, hitem, rfl⟩ := Option.map_eq_some_iff.mp (h.stored i result hslot)
      rw [hitem, Option.map_some]

/-- When every place is filled every item was worked on once. -/
theorem worked_perm (h : s.Sound items value)
    (hslots : s.pool.slots = items.map fun item => some (value item))
    (hstopped : s.AllStopped) : s.worked.Perm (List.range items.length) := by
  refine (List.perm_ext_iff_of_nodup h.worked_once List.nodup_range).mpr fun i => ?_
  rw [h.worked_iff, List.mem_range, hslots]
  constructor
  · rintro (⟨result, hstored⟩ | ⟨w, result, hfinished⟩)
    · obtain ⟨item, hitem, -⟩ := Option.map_eq_some_iff.mp (List.getElem?_map.symm.trans hstored)
      exact (List.getElem?_eq_some_iff.mp hitem).1
    · exact nomatch hstopped _ (List.mem_of_getElem? hfinished)
  · intro hi
    refine .inl ⟨value items[i], ?_⟩
    rw [List.getElem?_map, List.getElem?_eq_getElem hi, Option.map_some]

end Sound

/-! ## Progress -/

theorem sum_left_of_set {workers : List (WorkerStage β)} {w : Nat} {stage : WorkerStage β}
    (hw : workers[w]? = some stage) (stage' : WorkerStage β) :
    ((workers.set w stage').map WorkerStage.left).sum + stage.left =
      (workers.map WorkerStage.left).sum + stage'.left := by
  obtain ⟨hlt, rfl⟩ := List.getElem?_eq_some_iff.mp hw
  have hset := (List.set_perm_cons_eraseIdx hlt stage').map WorkerStage.left
  have hself := (List.getElem_cons_eraseIdx_perm hlt).map WorkerStage.left
  rw [hset.sum_eq, ← hself.sum_eq, List.map_cons, List.map_cons, List.sum_cons, List.sum_cons]
  omega

theorem left_claim {w : Nat} (hidle : s.pool.workers[w]? = some .idle) :
    left { s with pool := s.pool.claim w } + 1 = s.left := by
  by_cases hleft : s.pool.cursor < s.pool.slots.length
  · have hsum := sum_left_of_set hidle (.claimed s.pool.cursor)
    simp only [left, WorkerPool.claim, if_pos hleft]
    simp only [WorkerStage.left] at hsum
    omega
  · have hsum := sum_left_of_set hidle .stopped
    simp only [left, WorkerPool.claim, if_neg hleft]
    simp only [WorkerStage.left] at hsum
    omega

theorem left_work {w i : Nat} (hclaimed : s.pool.workers[w]? = some (.claimed i)) (result : β)
    (worked : List Nat) : left { pool := s.pool.finish w i result, worked } + 1 = s.left := by
  have hsum := sum_left_of_set hclaimed (.finished i result)
  simp only [left, WorkerPool.finish]
  simp only [WorkerStage.left] at hsum
  omega

theorem left_store {w i : Nat} {result : β}
    (hfinished : s.pool.workers[w]? = some (.finished i result)) :
    left { s with pool := s.pool.store w i result } + 1 = s.left := by
  have hsum := sum_left_of_set hfinished .idle
  simp only [left, WorkerPool.store, List.length_set]
  simp only [WorkerStage.left] at hsum
  omega

/-- A step that does something takes one from what is left. -/
theorem take_eq_or_left (items : List α) (value : α → β) (s : WorkingPool β) (step : WorkerStep) :
    s.take items value step = s ∨ (s.take items value step).left + 1 = s.left := by
  cases step with
  | claim w =>
    simp only [take]
    split
    · next hidle => exact .inr (left_claim hidle)
    · exact .inl rfl
  | work w =>
    simp only [take]
    split
    · next i hclaimed =>
      split
      · exact .inr (left_work hclaimed _ _)
      · exact .inl rfl
    · exact .inl rfl
  | store w =>
    simp only [take]
    split
    · next i result hfinished => exact .inr (left_store hfinished)
    · exact .inl rfl

/-- A worker that has not stopped can go on. -/
theorem Sound.exists_step (h : s.Sound items value) {w : Nat} {stage : WorkerStage β}
    (hw : s.pool.workers[w]? = some stage) (hstage : stage ≠ .stopped) :
    ∃ step, (s.take items value step).left + 1 = s.left := by
  cases stage with
  | idle => exact ⟨.claim w, by simpa only [WorkingPool.take, hw] using left_claim hw⟩
  | claimed i =>
    have hslot := ((h.held_iff i).mp ⟨w, holds_iff.mpr ⟨_, hw, rfl⟩⟩).2
    have hlt := (List.getElem?_eq_some_iff.mp hslot).1
    rw [h.length] at hlt
    refine ⟨.work w, ?_⟩
    simpa only [WorkingPool.take, hw, List.getElem?_eq_getElem hlt] using left_work hw _ _
  | finished i result =>
    exact ⟨.store w, by simpa only [WorkingPool.take, hw] using left_store hw⟩
  | stopped => exact absurd rfl hstage

/-- Whatever was done so far, the workers can still come to an end. -/
theorem Sound.exists_allStopped (h : s.Sound items value) :
    ∃ more, (s.takeAll items value more).AllStopped := by
  induction hleft : s.left using Nat.strong_induction_on generalizing s with
  | h n ih =>
    by_cases hstopped : s.AllStopped
    · exact ⟨[], hstopped⟩
    · obtain ⟨stage, hmem, hstage⟩ : ∃ stage ∈ s.pool.workers, stage ≠ .stopped := by
        simpa [AllStopped] using hstopped
      obtain ⟨w, hw⟩ := List.getElem?_of_mem hmem
      obtain ⟨step, hstep⟩ := h.exists_step hw hstage
      obtain ⟨more, hmore⟩ := ih _ (by omega) (h.take step) rfl
      exact ⟨step :: more, hmore⟩

/-- No worker comes or goes. -/
theorem take_workers_length (items : List α) (value : α → β) (s : WorkingPool β)
    (step : WorkerStep) :
    (s.take items value step).pool.workers.length = s.pool.workers.length := by
  cases step <;> simp only [take] <;> repeat' split
  all_goals simp [WorkerPool.claim, WorkerPool.finish, WorkerPool.store]

theorem takeAll_workers_length (items : List α) (value : α → β) (s : WorkingPool β)
    (steps : List WorkerStep) :
    (s.takeAll items value steps).pool.workers.length = s.pool.workers.length := by
  induction steps generalizing s with
  | nil => rfl
  | cons step steps ih => exact (ih _).trans (take_workers_length items value s step)

/-! ## One worker after the other -/

/-- The first worker does all the work on one item. -/
def oneItem : List WorkerStep := [.claim 0, .work 0, .store 0]

theorem takeAll_oneItem {pool : WorkerPool β} {done : List β} {left : Nat}
    (h : pool.Between done (left + 1)) {item : α} (hitem : items[done.length]? = some item)
    (worked : List Nat) :
    takeAll items value { pool, worked } oneItem =
      { pool := ((pool.claim 0).finish 0 pool.cursor (value item)).store 0 pool.cursor (value item)
        worked := pool.cursor :: worked } := by
  obtain ⟨others, hidle⟩ := h.idle
  have hleft : pool.cursor < pool.slots.length := by
    rw [h.cursor, h.slots]
    simp
  have hitem : items[pool.cursor]? = some item := by rw [h.cursor, hitem]
  simp [takeAll, oneItem, take, hidle, WorkerPool.claim, WorkerPool.finish, WorkerPool.store, hleft,
    hitem]

/-- A run that takes one item after the other is one of the orders in which steps may come. -/
theorem takeAll_one_after_another {ε σ : Type} {work : α → σ → Except ε β × σ} {value : α → β}
    (hwork : ∀ item state, (work item state).1 = .ok (value item)) {items before rest : List α}
    (hitems : items = before ++ rest) {pool : WorkerPool β} {done : List β}
    (h : pool.Between done rest.length) (hdone : done.length = before.length) (worked : List Nat)
    (state : σ) :
    (takeAll items value { pool, worked } (rest.flatMap fun _ => oneItem)).pool =
      (WorkerPool.run work rest pool none state).1 := by
  induction rest generalizing before pool done worked state with
  | nil => rfl
  | cons item rest ih =>
    have hthis : items[done.length]? = some item := by
      rw [hitems, hdone]
      simp
    have hone : work item state = (.ok (value item), (work item state).2) := by
      rw [← hwork item state]
    rw [List.flatMap_cons, takeAll_append, takeAll_oneItem h hthis, WorkerPool.run, h.available?]
    dsimp only
    rw [hone]
    refine ih (?_ : items = (before ++ [item]) ++ rest) (h.step (value item)) ?_ _ _
    · rw [hitems, List.append_assoc, List.singleton_append]
    · rw [List.length_append, List.length_append, hdone]
      rfl

end WorkingPool

/-- The results of work on one item after the other are those of workers that take turns so. -/
theorem mapWithWorkers_eq_takeAll {α β ε σ : Type} {work : α → σ → Except ε β × σ} {value : α → β}
    (hwork : ∀ item state, (work item state).1 = .ok (value item)) (limit : Nat) (items : List α)
    (state : σ) :
    (mapWithWorkers work limit items state).1 =
      .ok (WorkingPool.takeAll items value { pool := .start limit items.length }
        (items.flatMap fun _ => WorkingPool.oneItem)).pool.results := by
  have hstart : (WorkerPool.start limit items.length : WorkerPool β).Between [] items.length :=
    WorkerPool.between_start limit items.length
  obtain ⟨pool, state', hrun, -⟩ := hstart.run hwork state
  rw [WorkingPool.takeAll_one_after_another hwork (List.nil_append items).symm hstart rfl [] state]
  simp only [mapWithWorkers, hrun]

/-- **Workers side by side map a list.**  In whatever order the steps of the workers come, once all
have stopped the item of every place was worked on exactly once, no place is empty, and the results
are those of the items, in their order.  There are as many workers as there were at the start, they
can always come to an end, and every step that does anything brings the end nearer. -/
theorem interleaving_eq_map {α β : Type} (items : List α) (value : α → β) (limit : Nat)
    (steps : List WorkerStep) :
    let s := WorkingPool.takeAll items value { pool := .start limit items.length } steps
    s.pool.workers.length = max 1 (min limit items.length) ∧
    (s.AllStopped →
      s.worked.Perm (List.range items.length) ∧
      s.pool.slots = (items.map value).map some ∧
      s.pool.results = items.map value) ∧
    (∃ more, (s.takeAll items value more).AllStopped) ∧
    ∀ step, s.take items value step = s ∨ (s.take items value step).left + 1 = s.left := by
  intro s
  have hsound : s.Sound items value := (WorkingPool.sound_start items value limit).takeAll steps
  have hcount : s.pool.workers.length = max 1 (min limit items.length) := by
    rw [WorkingPool.takeAll_workers_length]
    exact List.length_replicate
  refine ⟨hcount, ?_, hsound.exists_allStopped, WorkingPool.take_eq_or_left items value s⟩
  intro hstopped
  have hpos : s.pool.workers ≠ [] := by
    intro hnil
    rw [hnil] at hcount
    exact absurd hcount (by simp; omega)
  have hslots := hsound.slots_eq hpos hstopped
  refine ⟨hsound.worked_perm hslots hstopped, ?_, ?_⟩
  · rw [hslots, List.map_map]
    rfl
  · rw [WorkerPool.results, hslots, List.filterMap_map]
    exact congrFun List.filterMap_eq_map items

/-- Two workers of three items, where the second place is filled before the first one. -/
def crossing : List WorkerStep :=
  [.claim 0, .claim 1, .work 1, .store 1, .work 0, .claim 1, .store 0, .claim 0, .work 1, .store 1,
    .claim 1]

theorem crossing_keeps_order :
    let s := WorkingPool.takeAll [5, 6, 7] (10 * ·) { pool := .start 2 3 } crossing
    s.AllStopped ∧ s.worked = [2, 0, 1] ∧ s.pool.results = [50, 60, 70] := by
  intro s
  have hstopped : s.AllStopped := by
    intro stage hstage
    have hworkers : s.pool.workers = [.stopped, .stopped] := rfl
    rw [hworkers] at hstage
    simpa using hstage
  obtain ⟨-, hmap, -⟩ := interleaving_eq_map [5, 6, 7] (10 * ·) 2 crossing
  exact ⟨hstopped, rfl, (hmap hstopped).2.2⟩

end MemoHints
