import Mathlib.Data.List.Nodup
import Mathlib.Data.List.Perm.Subperm
import Mathlib.Order.Monotone.Basic
import MemoHints.Proofs.Report.Interleaving
import MemoHints.Report.Progress

/-!
# Paced progress

Between the report at the start and the one of the last file, a meter reports no more often than
once in an interval, and no less often than that allows (`PacedReports`).  The counts that it
reports grow, so the time of a report is what the clock showed for its count, and the meter need not
write it down.

## Workers that share a meter

A worker counts its file before it stores the result, and whoever counts has the lock.  So the meter
sees one count after the other, whichever worker comes first, and counts no file twice
(`CountingPool.Sound`).  Its reports depend on the clock alone.
-/

namespace MemoHints

/-! ## One count after the other -/

/-- What a meter reports while it counts to `done`, when the clock shows the time of each count. -/
structure PacedReports (total interval : Nat) (clock : Nat → Nat) (done : Nat)
    (reports : List Progress) : Prop where
  first : reports.head? = some ⟨0, total⟩
  sameTotal : ∀ p ∈ reports, p.total = total
  counted : ∀ p ∈ reports, p.processed ≤ done
  increasing : reports.Pairwise (·.processed < ·.processed)
  /-- Only the last file does not wait. -/
  apart : reports.IsChain fun p q =>
    q.processed = total ∨ clock p.processed + interval ≤ clock q.processed
  /-- A count is passed over when the interval since the report before it is not over. -/
  silent : ∀ count ≤ done, count < total → (∀ p ∈ reports, p.processed ≠ count) →
    ∃ before last after, reports = before ++ last :: after ∧ last.processed < count ∧
      (∀ p ∈ after, count < p.processed) ∧ clock count < clock last.processed + interval
  final : done = total → reports.getLast? = some ⟨total, total⟩

namespace PacedReports

variable {total interval done : Nat} {clock : Nat → Nat}

theorem start : PacedReports total interval clock 0 [⟨0, total⟩] where
  first := rfl
  sameTotal := by simp
  counted := by simp
  increasing := List.pairwise_singleton _ _
  apart := List.isChain_singleton _
  silent count hdone _ hnot := by
    obtain rfl := Nat.le_zero.mp hdone
    exact absurd rfl (hnot _ List.mem_cons_self)
  final htotal := by
    subst htotal
    rfl

variable {before : List Progress} {last : Progress}

/-- The next count is reported. -/
theorem report (h : PacedReports total interval clock done (before ++ [last]))
    (hdue : done + 1 = total ∨ clock last.processed + interval ≤ clock (done + 1)) :
    PacedReports total interval clock (done + 1) (before ++ [last] ++ [⟨done + 1, total⟩]) where
  first := by
    rw [List.head?_append, h.first]
    rfl
  sameTotal := by
    intro p hp
    rcases List.mem_append.mp hp with hp | hp
    · exact h.sameTotal p hp
    · rw [List.mem_singleton.mp hp]
  counted := by
    intro p hp
    rcases List.mem_append.mp hp with hp | hp
    · exact Nat.le_succ_of_le (h.counted p hp)
    · rw [List.mem_singleton.mp hp]
  increasing := by
    refine List.pairwise_append.mpr ⟨h.increasing, List.pairwise_singleton _ _, fun p hp q hq => ?_⟩
    rw [List.mem_singleton.mp hq]
    exact Nat.lt_succ_of_le (h.counted p hp)
  apart := by
    refine List.isChain_append.mpr ⟨h.apart, List.isChain_singleton _, fun p hp q hq => ?_⟩
    rw [List.getLast?_concat, Option.mem_def, Option.some.injEq] at hp
    rw [List.head?_cons, Option.mem_def, Option.some.injEq] at hq
    subst hp hq
    exact hdue
  silent := by
    intro count hcount hbelow hnot
    obtain ⟨hnot, hnew⟩ := List.forall_mem_append.mp hnot
    have hne : done + 1 ≠ count := hnew _ List.mem_cons_self
    have hearlier : count < done + 1 := by omega
    obtain ⟨front, other, after, hreports, hother, hafter, hclock⟩ :=
      h.silent count (Nat.le_of_lt_succ hearlier) hbelow hnot
    refine ⟨front, other, after ++ [⟨done + 1, total⟩], ?_, hother, ?_, hclock⟩
    · rw [hreports, List.append_assoc, List.cons_append]
    · refine List.forall_mem_append.mpr ⟨hafter, fun p hp => ?_⟩
      rw [List.mem_singleton.mp hp]
      exact hearlier
  final htotal := by
    rw [List.getLast?_concat, ← htotal]

/-- The next count is passed over. -/
theorem skip (h : PacedReports total interval clock done (before ++ [last]))
    (hbelow : done + 1 < total) (hearly : clock (done + 1) < clock last.processed + interval) :
    PacedReports total interval clock (done + 1) (before ++ [last]) where
  first := h.first
  sameTotal := h.sameTotal
  counted p hp := Nat.le_succ_of_le (h.counted p hp)
  increasing := h.increasing
  apart := h.apart
  silent := by
    intro count hcount hlow hnot
    rcases Nat.le_succ_iff.mp hcount with hcount | rfl
    · exact h.silent count hcount hlow hnot
    · have hlast := h.counted last (List.mem_append_right _ List.mem_cons_self)
      exact ⟨before, last, [], rfl, Nat.lt_succ_of_le hlast, List.forall_mem_nil _, hearly⟩
  final htotal := absurd htotal (Nat.ne_of_lt hbelow)

/-- Nothing is reported twice. -/
theorem count_le_one {reports : List Progress}
    (h : PacedReports total interval clock done reports) (p : Progress) : reports.count p ≤ 1 := by
  refine List.nodup_iff_count_le_one.mp (h.increasing.imp fun hlt hsame => ?_) p
  rw [hsame] at hlt
  exact Nat.lt_irrefl _ hlt

/-- The last file is reported once, after all others. -/
theorem count_total {reports : List Progress}
    (h : PacedReports total interval clock total reports) :
    reports.getLast? = some ⟨total, total⟩ ∧ reports.count ⟨total, total⟩ = 1 := by
  refine ⟨h.final rfl, Nat.le_antisymm (h.count_le_one _) ?_⟩
  exact List.count_pos_iff.mpr (List.mem_of_getLast? (h.final rfl))

end PacedReports

namespace ProgressMeter

/-- A meter that was started and has counted so many files since. -/
def counting (total interval : Nat) (clock : Nat → Nat) : Nat → ProgressMeter
  | 0 => start { total, interval } (clock 0)
  | done + 1 => (counting total interval clock done).countOne clock

/-- All that a count can do. -/
theorem countOne_cases (meter : ProgressMeter) (clock : Nat → Nat) :
    ((meter.total ≤ meter.processed + 1 ∨ meter.isDue (clock (meter.processed + 1)) = true) ∧
      meter.countOne clock =
        { meter with
          processed := meter.processed + 1
          lastReport := some (clock (meter.processed + 1))
          reports := meter.reports ++ [⟨meter.processed + 1, meter.total⟩] }) ∨
    (meter.processed + 1 < meter.total ∧ meter.isDue (clock (meter.processed + 1)) = false ∧
      meter.countOne clock = { meter with processed := meter.processed + 1 }) := by
  have hdue : isDue { meter with processed := meter.processed + 1 } = meter.isDue := rfl
  simp only [countOne, advance, emit, hdue, Bool.or_eq_true, decide_eq_true_eq]
  split
  next hnow => exact .inl ⟨hnow, rfl⟩
  next hnot =>
    obtain ⟨hbelow, hearly⟩ := not_or.mp hnot
    exact .inr ⟨Nat.lt_of_not_le hbelow, Bool.eq_false_iff.mpr hearly, rfl⟩

variable {total interval : Nat} {clock : Nat → Nat}

/-- A meter that has counted to `done`: it knows when it made its last report. -/
structure CountedTo (total interval : Nat) (clock : Nat → Nat) (done : Nat)
    (meter : ProgressMeter) : Prop where
  total : meter.total = total
  interval : meter.interval = interval
  processed : meter.processed = done
  last : ∃ before last, meter.reports = before ++ [last] ∧
    meter.lastReport = some (clock last.processed)

theorem counting_countedTo (total interval : Nat) (clock : Nat → Nat) (done : Nat) :
    CountedTo total interval clock done (counting total interval clock done) := by
  induction done with
  | zero => exact ⟨rfl, rfl, rfl, [], _, rfl, rfl⟩
  | succ done ih =>
    have hprocessed := ih.processed
    rcases countOne_cases (counting total interval clock done) clock with
      ⟨-, hcount⟩ | ⟨-, -, hcount⟩
    · rw [counting, hcount]
      exact ⟨ih.total, ih.interval, by rw [hprocessed], _, _, rfl, rfl⟩
    · rw [counting, hcount]
      exact ⟨ih.total, ih.interval, by rw [hprocessed], ih.last⟩

/-- **Reports are paced.** -/
theorem counting_paced (interval : Nat) (hclock : Monotone clock) {done : Nat}
    (hdone : done ≤ total) :
    PacedReports total interval clock done (counting total interval clock done).reports := by
  induction done with
  | zero => exact .start
  | succ done ih =>
    have hpaced := ih (Nat.le_of_succ_le hdone)
    obtain ⟨htotal, hinterval, hprocessed, before, last, hreports, hlast⟩ :=
      counting_countedTo total interval clock done
    rw [hreports] at hpaced
    have hcounted : last.processed ≤ done :=
      hpaced.counted last (List.mem_append_right _ List.mem_cons_self)
    have hlater : clock last.processed ≤ clock (done + 1) := hclock (Nat.le_succ_of_le hcounted)
    have hdue : (counting total interval clock done).isDue (clock (done + 1)) = true ↔
        clock last.processed + interval ≤ clock (done + 1) := by
      simp only [isDue, hlast, hinterval, decide_eq_true_eq]
      omega
    have hcases := countOne_cases (counting total interval clock done) clock
    rw [htotal, hprocessed, hreports] at hcases
    rcases hcases with ⟨hnow, hcount⟩ | ⟨hbelow, hearly, hcount⟩
    · rw [counting, hcount]
      exact hpaced.report (hnow.imp (Nat.le_antisymm hdone) hdue.mp)
    · rw [counting, hcount]
      refine hpaced.skip hbelow (Nat.lt_of_not_le fun hle => ?_)
      rw [hdue.mpr hle] at hearly
      cases hearly

end ProgressMeter

/-! ## Workers in any order -/

/-- A pool at work with the meter that its workers share, and the places whose files were counted,
the latest first. -/
structure CountingPool (β : Type) where
  working : WorkingPool β
  meter : ProgressMeter
  counted : List Nat := []

/-- What a worker does at once. -/
inductive CountingStep where
  | claim (worker : Nat)
  | work (worker : Nat)
  /-- Counts the file that it has finished. -/
  | count (worker : Nat)
  | store (worker : Nat)

namespace CountingPool

variable {α β : Type}

/-- A worker that is told to do what it is not up to does nothing.  It is up to storing a result
once it has counted the file. -/
def take (items : List α) (value : α → β) (clock : Nat → Nat) (s : CountingPool β) :
    CountingStep → CountingPool β
  | .claim w => { s with working := s.working.take items value (.claim w) }
  | .work w => { s with working := s.working.take items value (.work w) }
  | .count w =>
    match s.working.pool.workers[w]? with
    | some (.finished i _) =>
      if i ∈ s.counted then s
      else { s with meter := s.meter.countOne clock, counted := i :: s.counted }
    | _ => s
  | .store w =>
    match s.working.pool.workers[w]? with
    | some (.finished i _) =>
      if i ∈ s.counted then { s with working := s.working.take items value (.store w) } else s
    | _ => s

/-- Steps one after the other. -/
def takeAll (items : List α) (value : α → β) (clock : Nat → Nat) (s : CountingPool β)
    (steps : List CountingStep) : CountingPool β :=
  steps.foldl (take items value clock) s

/-- All workers before their first step, and a meter that was started. -/
def start (limit interval : Nat) (clock : Nat → Nat) (n : Nat) : CountingPool β :=
  { working := { pool := .start limit n }
    meter := .counting n interval clock 0 }

/-- The files that are counted are finished, those whose results are stored are counted, and none is
counted twice. -/
structure Sound (items : List α) (value : α → β) (interval : Nat) (clock : Nat → Nat)
    (s : CountingPool β) : Prop where
  working : s.working.Sound items value
  meter : s.meter = .counting items.length interval clock s.counted.length
  once : s.counted.Nodup
  worked : ∀ i ∈ s.counted, i ∈ s.working.worked
  stored : ∀ i result, s.working.pool.slots[i]? = some (some result) → i ∈ s.counted

theorem sound_start (items : List α) (value : α → β) (limit interval : Nat) (clock : Nat → Nat) :
    Sound items value interval clock (start limit interval clock items.length) where
  working := WorkingPool.sound_start items value limit
  meter := rfl
  once := List.nodup_nil
  worked := nofun
  stored _ _ h := nomatch WorkingPool.eq_none_of_start h

variable {items : List α} {value : α → β} {interval : Nat} {clock : Nat → Nat} {s : CountingPool β}

namespace Sound

/-- A step of the work that stores nothing leaves the counting alone. -/
theorem of_working (h : s.Sound items value interval clock) (step : WorkerStep)
    (hslots : (s.working.take items value step).pool.slots = s.working.pool.slots)
    (hworked : ∀ i ∈ s.working.worked, i ∈ (s.working.take items value step).worked) :
    Sound items value interval clock { s with working := s.working.take items value step } where
  working := h.working.take step
  meter := h.meter
  once := h.once
  worked i hi := hworked i (h.worked i hi)
  stored := by
    rw [hslots]
    exact h.stored

/-- Every step keeps the invariant. -/
theorem take (h : s.Sound items value interval clock) (step : CountingStep) :
    (s.take items value clock step).Sound items value interval clock := by
  cases step with
  | claim w =>
    refine h.of_working (.claim w) ?_ ?_
    all_goals
      simp only [WorkingPool.take]
      split <;> simp [WorkerPool.claim]
  | work w =>
    refine h.of_working (.work w) ?_ ?_
    all_goals
      simp only [WorkingPool.take]
      split
      · split <;> simp +contextual [WorkerPool.finish]
      · simp
  | count w =>
    simp only [CountingPool.take]
    split
    next i result hfinished =>
      split
      next => exact h
      next hnew =>
        have hmeter : s.meter.countOne clock =
            .counting items.length interval clock (s.counted.length + 1) := by
          rw [h.meter, ProgressMeter.counting]
        refine ⟨h.working, hmeter, List.nodup_cons.mpr ⟨hnew, h.once⟩, ?_, ?_⟩
        · refine List.forall_mem_cons.mpr ⟨?_, h.worked⟩
          exact (h.working.worked_iff i).mpr (.inr ⟨w, result, hfinished⟩)
        · exact fun j _ hstored => List.mem_cons_of_mem i (h.stored j _ hstored)
    next => exact h
  | store w =>
    simp only [CountingPool.take]
    split
    next i result hfinished =>
      split
      next hcounted =>
        have hstore : s.working.take items value (.store w) =
            { s.working with pool := s.working.pool.store w i result } := by
          simp only [WorkingPool.take, hfinished]
        refine ⟨h.working.take (.store w), h.meter, h.once, ?_, ?_⟩
        · rw [hstore]
          exact h.worked
        · rw [hstore]
          intro j other hstored
          by_cases hj : i = j
          · exact hj ▸ hcounted
          · rw [WorkerPool.store, List.getElem?_set_ne hj] at hstored
            exact h.stored j other hstored
      next => exact h
    next => exact h

theorem takeAll (h : s.Sound items value interval clock) (steps : List CountingStep) :
    (s.takeAll items value clock steps).Sound items value interval clock := by
  induction steps generalizing s with
  | nil => exact h
  | cons step steps ih => exact ih (h.take step)

/-- No more files are counted than there are. -/
theorem length_counted_le (h : s.Sound items value interval clock) :
    s.counted.length ≤ items.length := by
  have hsub : ∀ i ∈ s.counted, i ∈ List.range items.length := by
    intro i hi
    rw [List.mem_range]
    have hitem : ∃ result, items[i]?.map value = some result := by
      rcases (h.working.worked_iff i).mp (h.worked i hi) with
        ⟨result, hstored⟩ | ⟨w, result, hfinished⟩
      · exact ⟨result, h.working.stored i result hstored⟩
      · exact ⟨result, h.working.finished w i result hfinished⟩
    obtain ⟨result, hitem⟩ := hitem
    obtain ⟨item, hitem, -⟩ := Option.map_eq_some_iff.mp hitem
    exact (List.getElem?_eq_some_iff.mp hitem).1
  have hle := (h.once.subperm hsub).length_le
  rwa [List.length_range] at hle

/-- When all workers have stopped every file is counted. -/
theorem length_counted (h : s.Sound items value interval clock)
    (hpos : s.working.pool.workers ≠ []) (hstopped : s.working.AllStopped) :
    s.counted.length = items.length := by
  refine Nat.le_antisymm h.length_counted_le ?_
  have hslots := h.working.slots_eq hpos hstopped
  have hsub : ∀ i ∈ List.range items.length, i ∈ s.counted := by
    intro i hi
    have hi := List.mem_range.mp hi
    refine h.stored i (value items[i]) ?_
    rw [hslots, List.getElem?_map, List.getElem?_eq_getElem hi, Option.map_some]
  have hle := (List.nodup_range.subperm hsub).length_le
  rwa [List.length_range] at hle

end Sound

/-- A step is one of the work, or leaves the work where it is. -/
theorem take_working (items : List α) (value : α → β) (clock : Nat → Nat) (s : CountingPool β)
    (step : CountingStep) : (s.take items value clock step).working = s.working ∨
      ∃ work, (s.take items value clock step).working = s.working.take items value work := by
  cases step with
  | claim w => exact .inr ⟨.claim w, rfl⟩
  | work w => exact .inr ⟨.work w, rfl⟩
  | count w =>
    left
    simp only [CountingPool.take]
    split
    · split <;> rfl
    · rfl
  | store w =>
    simp only [CountingPool.take]
    split
    · split
      · exact .inr ⟨.store w, rfl⟩
      · exact .inl rfl
    · exact .inl rfl

/-- No worker comes or goes. -/
theorem takeAll_workers_length (items : List α) (value : α → β) (clock : Nat → Nat)
    (s : CountingPool β) (steps : List CountingStep) :
    (s.takeAll items value clock steps).working.pool.workers.length =
      s.working.pool.workers.length := by
  induction steps generalizing s with
  | nil => rfl
  | cons step steps ih =>
    refine (ih (s.take items value clock step)).trans ?_
    rcases take_working items value clock s step with hsame | ⟨work, hwork⟩
    · rw [hsame]
    · rw [hwork, WorkingPool.take_workers_length]

/-- There is a worker. -/
theorem workers_ne_nil (items : List α) (value : α → β) (limit interval : Nat) (clock : Nat → Nat)
    (steps : List CountingStep) :
    (takeAll items value clock (start limit interval clock items.length) steps).working.pool.workers
      ≠ [] := by
  refine List.ne_nil_of_length_pos ?_
  rw [takeAll_workers_length]
  exact Nat.lt_of_lt_of_eq (Nat.lt_of_lt_of_le Nat.zero_lt_one (Nat.le_max_left _ _))
    List.length_replicate.symm

/-! ## Counting holds nobody up -/

theorem takeAll_append (s : CountingPool β) (steps more : List CountingStep) :
    s.takeAll items value clock (steps ++ more) =
      (s.takeAll items value clock steps).takeAll items value clock more :=
  List.foldl_append

/-- A worker can count its file before it stores the result, so every step of the work is
possible. -/
theorem exists_takeAll_working (items : List α) (value : α → β) (clock : Nat → Nat)
    (s : CountingPool β) (step : WorkerStep) : ∃ steps,
      (s.takeAll items value clock steps).working = s.working.take items value step := by
  cases step with
  | claim w => exact ⟨[.claim w], rfl⟩
  | work w => exact ⟨[.work w], rfl⟩
  | store w =>
    refine ⟨[.count w, .store w], ?_⟩
    simp only [takeAll, List.foldl_cons, List.foldl_nil, CountingPool.take]
    cases hworker : s.working.pool.workers[w]? with
    | none => simp [WorkingPool.take, hworker]
    | some stage =>
      cases stage with
      | finished i result =>
        by_cases hcounted : i ∈ s.counted
        · simp [hworker, hcounted]
        · simp [hworker, hcounted]
      | idle | claimed _ | stopped => simp [WorkingPool.take, hworker]

/-- Whatever was done so far, the workers can still come to an end. -/
theorem Sound.exists_allStopped (h : s.Sound items value interval clock) :
    ∃ more, (s.takeAll items value clock more).working.AllStopped := by
  obtain ⟨work, hstopped⟩ := h.working.exists_allStopped
  have hmore : ∃ more, (s.takeAll items value clock more).working =
      s.working.takeAll items value work := by
    clear h hstopped
    induction work generalizing s with
    | nil => exact ⟨[], rfl⟩
    | cons step work ih =>
      obtain ⟨first, hfirst⟩ := exists_takeAll_working items value clock s step
      obtain ⟨rest, hrest⟩ := @ih (s.takeAll items value clock first)
      refine ⟨first ++ rest, ?_⟩
      rw [takeAll_append, hrest, hfirst]
      rfl
  obtain ⟨more, hmore⟩ := hmore
  exact ⟨more, hmore ▸ hstopped⟩

end CountingPool

end MemoHints
