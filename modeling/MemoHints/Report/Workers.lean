/-!
# Workers on a list

Several workers go over a list: each claims the next place, works on the item there, and stores the
result at that place, until no place is left. The steps of different workers may come in any order.
A worker whose work breaks off stops and leaves its place empty.

The threads of the workers are assumed to start. A system that refuses one, which ends the whole run
with an error before any work, has no counterpart here.
-/

namespace MemoHints

/-- What a worker is doing. -/
inductive WorkerStage (β : Type) where
  | idle
  | claimed (index : Nat)
  | finished (index : Nat) (result : β)
  | stopped

/-- The next place to claim, the results by place, and the workers. -/
structure WorkerPool (β : Type) where
  cursor : Nat
  slots : List (Option β)
  workers : List (WorkerStage β)

namespace WorkerPool

variable {β : Type}

/-- How many workers a list of `n` items gets: at most one for each, and at least one. -/
def workerCount (limit n : Nat) : Nat := max 1 (min limit n)

/-- All workers before their first step. -/
def start (limit n : Nat) : WorkerPool β :=
  { cursor := 0
    slots := List.replicate n none
    workers := List.replicate (workerCount limit n) .idle }

/-- An idle worker claims the next place, or stops when there is none. -/
def claim (pool : WorkerPool β) (worker : Nat) : WorkerPool β :=
  { pool with
    cursor := pool.cursor + 1
    workers := pool.workers.set worker
      (if pool.cursor < pool.slots.length then .claimed pool.cursor else .stopped) }

/-- A worker has the result for the place that it claimed. -/
def finish (pool : WorkerPool β) (worker index : Nat) (result : β) : WorkerPool β :=
  { pool with workers := pool.workers.set worker (.finished index result) }

/-- A worker stores its result. -/
def store (pool : WorkerPool β) (worker index : Nat) (result : β) : WorkerPool β :=
  { pool with
    slots := pool.slots.set index (some result)
    workers := pool.workers.set worker .idle }

/-- A worker stops. -/
def stop (pool : WorkerPool β) (worker : Nat) : WorkerPool β :=
  { pool with workers := pool.workers.set worker .stopped }

/-- The results that are there, in the order of their places. -/
def results (pool : WorkerPool β) : List β := pool.slots.filterMap id

/-- The first worker that has not stopped. -/
def available? (pool : WorkerPool β) : Option Nat :=
  pool.workers.findIdx? fun stage =>
    match stage with
    | .stopped => false
    | _ => true

/-- Lets one worker after the other go on until the items are used up or all workers have stopped.
Work changes a state; work that breaks off gives an error. The first error is kept. -/
def run {α ε σ : Type} (work : α → σ → Except ε β × σ) :
    List α → WorkerPool β → Option ε → σ → WorkerPool β × Option ε × σ
  | [], pool, broken, s => (pool, broken, s)
  | item :: rest, pool, broken, s =>
    match pool.available? with
    | none => (pool, broken, s)
    | some worker =>
      let index := pool.cursor
      let pool := pool.claim worker
      match work item s with
      | (.ok result, s) =>
        run work rest ((pool.finish worker index result).store worker index result) broken s
      | (.error e, s) => run work rest (pool.stop worker) (broken.or (some e)) s

end WorkerPool

/-- The results of work on every item, in order, by at most `limit` workers. Work changes a state;
when some of it breaks off, the first error is the answer. -/
def mapWithWorkers {α β ε σ : Type} (work : α → σ → Except ε β × σ) (limit : Nat)
    (items : List α) (s : σ) : Except ε (List β) × σ :=
  match WorkerPool.run work items (.start limit items.length) none s with
  | (_, some e, s) => (.error e, s)
  | (pool, none, s) => (.ok pool.results, s)

end MemoHints
