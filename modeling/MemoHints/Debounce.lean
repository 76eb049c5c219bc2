/-!
# Requests that come in quick succession

Requests with one key collapse into one: each waits for a quiet period, and a newer one takes the
place of an older one that still waits, which is answered with nothing. Work that has begun goes on.

The steps are those that happen at once: a call takes its number, it enters the table of waiting
calls and supersedes the one before it, its timer expires and looks whether the call is still the
one in the table, and its work ends. Calls may take these steps in any order among themselves.
-/

namespace MemoHints

/-- How far a call has come. -/
inductive CallStage (α : Type) where
  /-- It has its number. -/
  | numbered
  /-- Its timer runs. -/
  | waiting
  /-- Its work has begun. -/
  | running
  /-- It is answered. -/
  | done (answer : Option α)
deriving DecidableEq

/-- A call with its work. -/
structure DebouncedCall (β α : Type) where
  generation : Nat
  key : String
  work : β
  due : Nat := 0
  stage : CallStage α := .numbered
  /-- Whether anyone waits for the answer. -/
  awaited : Bool := true

/-- Calls that are not delivered yet, and the number of the waiting call of each key. -/
structure Debouncer (β α : Type) where
  next : Nat := 0
  calls : List (DebouncedCall β α) := []
  pending : List (String × Nat) := []

namespace Debouncer

variable {β α : Type}

/-- The quiet period in milliseconds. -/
def defaultDelay : Nat := 300

def call? (d : Debouncer β α) (generation : Nat) : Option (DebouncedCall β α) :=
  d.calls.find? (·.generation = generation)

/-- Changes the call of a number. -/
def update (d : Debouncer β α) (generation : Nat)
    (f : DebouncedCall β α → DebouncedCall β α) : Debouncer β α :=
  { d with calls := d.calls.map fun c => if c.generation = generation then f c else c }

/-- A call takes its number. -/
def number (d : Debouncer β α) (key : String) (work : β) : Nat × Debouncer β α :=
  (d.next, { d with
    next := d.next + 1
    calls := d.calls ++ [{ generation := d.next, key, work }] })

/-- A call that still waits is answered with nothing. -/
def supersede (d : Debouncer β α) (generation : Nat) : Debouncer β α :=
  d.update generation fun c => { c with stage := .done none }

/-- A numbered call starts its timer and becomes the waiting call of its key. -/
def insert (d : Debouncer β α) (generation due : Nat) : Debouncer β α :=
  match d.call? generation with
  | none => d
  | some c =>
    let d' := match d.pending.lookup c.key with
      | some older => d.supersede older
      | none => d
    let d' := d'.update generation fun c => { c with stage := .waiting, due }
    { d' with pending := (c.key, generation) :: d.pending.filter (·.1 ≠ c.key) }

/-- The timer of a call expires: its work begins if it is the waiting call of its key. -/
def expire (d : Debouncer β α) (generation : Nat) : Option β × Debouncer β α :=
  match d.call? generation with
  | none => (none, d)
  | some c =>
    if d.pending.lookup c.key = some generation then
      let d := d.update generation fun c => { c with stage := .running }
      (some c.work, { d with pending := d.pending.filter (·.1 ≠ c.key) })
    else (none, d)

/-- The work of a call ends; work that fails has no value. -/
def finish (d : Debouncer β α) (generation : Nat) (value : Option α) : Debouncer β α :=
  d.update generation fun c => { c with stage := .done value }

/-- Nobody waits for the answer of a call any longer. -/
def abandon (d : Debouncer β α) (generation : Nat) : Debouncer β α :=
  d.update generation fun c => { c with awaited := false }

/-- The answers that are there, and the calls without them. -/
def deliver (d : Debouncer β α) : List (Nat × Option α) × Debouncer β α :=
  (d.calls.filterMap fun c =>
    match c.stage with
    | .done answer => if c.awaited then some (c.generation, answer) else none
    | _ => none,
  { d with calls := d.calls.filter fun c =>
      match c.stage with
      | .done _ => false
      | _ => true })

/-- A request: number and table entry at once. -/
def schedule (d : Debouncer β α) (key : String) (work : β) (due : Nat) : Nat × Debouncer β α :=
  let (generation, d) := d.number key work
  (generation, d.insert generation due)

/-- Whether a call's timer has expired by a time. -/
def isDue (now : Nat) (c : DebouncedCall β α) : Bool :=
  match c.stage with
  | .waiting => c.due ≤ now
  | _ => false

/-- The calls whose timers have expired, in the order in which they do. -/
def dueCalls (d : Debouncer β α) (now : Nat) : List (DebouncedCall β α) :=
  (d.calls.filter (isDue now)).mergeSort fun c c' => c.due ≤ c'.due

/-- The moments up to a time at which timers expire, each once. -/
def dueMoments (d : Debouncer β α) (now : Nat) : List Nat :=
  ((d.dueCalls now).map (·.due)).eraseReps

/-- Lets the timers up to a time expire and does the work that begins. The work changes a state and
may fail. The numbers of the calls that worked are added. -/
def fireDue {σ : Type} (run : β → σ → Option α × σ) (now : Nat) (d : Debouncer β α) (s : σ) :
    Debouncer β α × List Nat × σ :=
  (d.dueCalls now).foldl (fun (d, worked, s) c =>
    match d.expire c.generation with
    | (none, d) => (d, worked, s)
    | (some work, d) =>
      let (value, s) := run work s
      (d.finish c.generation value, worked ++ [c.generation], s)) (d, [], s)

/-- How many calls wait. -/
def pendingCount (d : Debouncer β α) : Nat := d.pending.length

end Debouncer

end MemoHints
