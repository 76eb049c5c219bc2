import MemoHints.Report.Workers

/-!
# Work that never breaks off

When no item breaks off its work, workers between them do the work of every item, and the results
are in the order of the items, however many workers there are.  Work may break off on some items and
not on others; when it has not, every item has taken the state one further
(`mapWithWorkers_completed`).
-/

namespace MemoHints

namespace WorkerPool

variable {α β ε σ : Type}

/-- The pool between two items: the first results are there, and the first worker is idle. -/
structure Between (pool : WorkerPool β) (done : List β) (left : Nat) : Prop where
  cursor : pool.cursor = done.length
  slots : pool.slots = done.map some ++ List.replicate left none
  idle : ∃ others, pool.workers = .idle :: others

theorem between_start (limit n : Nat) : Between (start limit n : WorkerPool β) [] n where
  cursor := rfl
  slots := rfl
  idle := by
    have hpos : workerCount limit n ≠ 0 :=
      Nat.ne_of_gt (Nat.lt_of_lt_of_le Nat.zero_lt_one (Nat.le_max_left _ _))
    obtain ⟨others, hothers⟩ := Nat.exists_eq_succ_of_ne_zero hpos
    exact ⟨List.replicate others .idle, by rw [start, hothers, List.replicate_succ]⟩

namespace Between

variable {pool : WorkerPool β} {done : List β} {left : Nat}

theorem available? (h : pool.Between done left) : pool.available? = some 0 := by
  obtain ⟨others, hidle⟩ := h.idle
  simp [WorkerPool.available?, hidle, List.findIdx?_cons]

/-- The first worker claims the next place, works, and stores its result there. -/
theorem step (h : pool.Between done (left + 1)) (result : β) :
    Between (((pool.claim 0).finish 0 pool.cursor result).store 0 pool.cursor result)
      (done ++ [result]) left where
  cursor := by simp [claim, finish, store, h.cursor]
  slots := by
    simp [claim, finish, store, h.cursor, h.slots, List.replicate_succ]
  idle := by
    obtain ⟨others, hidle⟩ := h.idle
    exact ⟨others, by simp [claim, finish, store, hidle]⟩

theorem results (h : pool.Between done 0) : pool.results = done := by
  simp [WorkerPool.results, h.slots, List.filterMap_map]

/-- The items that are left are all worked on. -/
theorem run {work : α → σ → Except ε β × σ} {value : α → β}
    (hwork : ∀ item s, (work item s).1 = .ok (value item)) {items : List α}
    (h : pool.Between done items.length) (s : σ) :
    ∃ pool' s', WorkerPool.run work items pool none s = (pool', none, s') ∧
      pool'.Between (done ++ items.map value) 0 := by
  induction items generalizing pool done s with
  | nil => exact ⟨pool, s, rfl, by simpa using h⟩
  | cons item items ih =>
    obtain ⟨pool', s', hrun, hpool'⟩ := ih (h.step (value item)) (work item s).2
    refine ⟨pool', s', ?_, by simpa using hpool'⟩
    have hitem : work item s = (.ok (value item), (work item s).2) := by rw [← hwork item s]
    rw [WorkerPool.run, h.available?]
    dsimp only
    rw [hitem]
    exact hrun

end Between

/-- Work that broke off once is not complete. -/
theorem run_of_broken (work : α → σ → Except ε β × σ) (items : List α) (pool : WorkerPool β) (e : ε)
    (s : σ) : (WorkerPool.run work items pool (some e) s).2.1 = some e := by
  induction items generalizing pool s with
  | nil => rfl
  | cons item items ih =>
    rw [WorkerPool.run]
    split
    · rfl
    · split
      · exact ih _ _
      · exact ih _ _

/-- When the work comes to its end, each item has taken the state one further. -/
theorem Between.run_completed {work : α → σ → Except ε β × σ} {P : Nat → σ → Prop}
    (hwork : ∀ item k s result s', P k s → work item s = (.ok result, s') → P (k + 1) s')
    {pool : WorkerPool β} {done : List β} {items : List α} (h : pool.Between done items.length)
    {k : Nat} {s : σ} (hs : P k s) {pool' : WorkerPool β} {s' : σ}
    (hrun : WorkerPool.run work items pool none s = (pool', none, s')) :
    ∃ results, results.length = items.length ∧ pool'.Between (done ++ results) 0 ∧
      P (k + items.length) s' := by
  induction items generalizing pool done k s with
  | nil =>
    cases hrun
    exact ⟨[], rfl, by simpa using h, hs⟩
  | cons item items ih =>
    rw [WorkerPool.run, h.available?] at hrun
    dsimp only at hrun
    cases hitem : work item s with
    | mk outcome next =>
      rw [hitem] at hrun
      cases outcome with
      | error e =>
        have hbroken := run_of_broken work items ((pool.claim 0).stop 0) e next
        simp only [Option.none_or] at hrun
        rw [hrun] at hbroken
        cases hbroken
      | ok result =>
        obtain ⟨results, hlength, hbetween, hs'⟩ :=
          ih (h.step result) (hwork item k s result next hs hitem) hrun
        refine ⟨result :: results, congrArg Nat.succ hlength, by simpa using hbetween, ?_⟩
        rw [List.length_cons, Nat.add_comm items.length, ← Nat.add_assoc]
        exact hs'

end WorkerPool

/-- **Every item is worked on.**  The results are those of the items, in their order. -/
theorem mapWithWorkers_eq_map {α β ε σ : Type} {work : α → σ → Except ε β × σ} {value : α → β}
    (hwork : ∀ item s, (work item s).1 = .ok (value item)) (limit : Nat) (items : List α) (s : σ) :
    (mapWithWorkers work limit items s).1 = .ok (items.map value) := by
  obtain ⟨pool, s', hrun, hpool⟩ :=
    (WorkerPool.between_start limit items.length).run hwork s
  rw [List.nil_append] at hpool
  simp only [mapWithWorkers, hrun, hpool.results]

/-- **Work that comes to its end was done on every item.**  What each item takes one further has
gone as far as there are items. -/
theorem mapWithWorkers_completed {α β ε σ : Type} {work : α → σ → Except ε β × σ}
    {P : Nat → σ → Prop}
    (hwork : ∀ item k s result s', P k s → work item s = (.ok result, s') → P (k + 1) s')
    {limit : Nat} {items : List α} {s s' : σ} {results : List β} (hs : P 0 s)
    (h : mapWithWorkers work limit items s = (.ok results, s')) :
    results.length = items.length ∧ P items.length s' := by
  unfold mapWithWorkers at h
  cases hrun : WorkerPool.run work items (.start limit items.length) none s with
  | mk pool rest =>
    obtain ⟨_ | e, next⟩ := rest
    · rw [hrun] at h
      cases h
      obtain ⟨results, hlength, hpool, hnext⟩ :=
        (WorkerPool.between_start limit items.length).run_completed hwork hs hrun
      rw [hpool.results, List.nil_append]
      exact ⟨hlength, by simpa using hnext⟩
    · rw [hrun] at h
      cases h

end MemoHints
