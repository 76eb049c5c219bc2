import Mathlib.Logic.Function.Basic
import MemoHints.Proofs.Debounce.Calls

/-!
# Calls whose steps come in any order

A call takes its number, enters the table and sets its timer; the timer wakes up some time and then
looks whether its call is still the one in the table.  Here the steps of any number of calls, on any
keys, come in any order: a call may enter after one with a larger number, and a timer may wake up
and still have to wait while another call takes its place in the table.

What happened to the calls is written down beside the debouncer, and nothing reads it.
-/

namespace MemoHints

/-- How the work of a call ends. -/
inductive WorkEnd (α : Type) where
  | value (v : α)
  | failed
  | panicked
deriving DecidableEq

/-- Work that does not end with a value answers nothing. -/
def WorkEnd.answer {α : Type} : WorkEnd α → Option α
  | .value v => some v
  | .failed | .panicked => none

/-- How far the timer of a call has come. -/
inductive TimerStage where
  | unset
  | asleep
  /-- It has woken up and waits for the table. -/
  | awake
  /-- It has looked into the table, or it was stopped in its sleep. -/
  | ended
deriving DecidableEq

/-- What happens to a call. -/
inductive CallEvent (α : Type) where
  | entered (key : String)
  /-- Another call took its place: its timer is stopped, and it is answered with nothing. -/
  | superseded
  /-- Its timer took it out of the table, and its work began. -/
  | started
  | returned (result : WorkEnd α)
  | resolved (answer : Option α)
deriving DecidableEq

namespace CallEvent

variable {α : Type}

def isStart : CallEvent α → Bool
  | .started => true
  | _ => false

def isResolution : CallEvent α → Bool
  | .resolved _ => true
  | _ => false

/-- The answer that a call has from then on. -/
def answer? : CallEvent α → Option (Option α)
  | .superseded => some none
  | .returned result => some result.answer
  | _ => none

end CallEvent

/-- What calls and their timers do at once. -/
inductive DebounceStep (β α : Type) where
  | number (key : String) (work : β)
  | enter (generation due : Nat)
  | wake (generation : Nat)
  /-- The timer looks into the table. -/
  | check (generation : Nat)
  | finish (generation : Nat) (result : WorkEnd α)
  | deliver (generation : Nat)
  /-- The caller goes away. -/
  | drop (generation : Nat)

/-- A debouncer with the timers of its calls.  Beside it stands what happened, the latest first, and
whose callers went away. -/
structure DebounceRun (β α : Type) where
  debouncer : Debouncer β α := {}
  timers : Nat → TimerStage := fun _ => .unset
  history : List (Nat × CallEvent α) := []
  dropped : List Nat := []

/-! ## Steps -/

namespace DebounceRun

variable {β α : Type}

/-- What a history says of a call. -/
def storyIn (history : List (Nat × CallEvent α)) (generation : Nat) : List (CallEvent α) :=
  (history.filter (·.1 = generation)).map Prod.snd

/-- What happened to a call, the latest first. -/
def story (s : DebounceRun β α) (generation : Nat) : List (CallEvent α) :=
  storyIn s.history generation

@[simp] theorem storyIn_cons_self (g : Nat) (event : CallEvent α)
    (history : List (Nat × CallEvent α)) :
    storyIn ((g, event) :: history) g = event :: storyIn history g := by
  simp [storyIn]

theorem storyIn_cons_of_ne {g g' : Nat} (h : g' ≠ g) (event : CallEvent α)
    (history : List (Nat × CallEvent α)) :
    storyIn ((g, event) :: history) g' = storyIn history g' := by
  simp [storyIn, h.symm]

theorem mem_storyIn_cons {g : Nat} {event : CallEvent α} {history : List (Nat × CallEvent α)}
    (h : event ∈ storyIn history g) (e : Nat × CallEvent α) : event ∈ storyIn (e :: history) g := by
  obtain ⟨g', event'⟩ := e
  by_cases heq : g = g'
  · rw [heq, storyIn_cons_self]
    exact List.mem_cons_of_mem _ (heq ▸ h)
  · rw [storyIn_cons_of_ne heq]
    exact h

/-- The call of a key that entered last. -/
def latestOf (key : String) : List (Nat × CallEvent α) → Option Nat
  | [] => none
  | (g, .entered k) :: history => if k = key then some g else latestOf key history
  | _ :: history => latestOf key history

/-- Stops the timer of a call.  One that has woken up is not stopped. -/
def stopTimer (timers : Nat → TimerStage) (generation : Nat) : Nat → TimerStage :=
  Function.update timers generation
    (if timers generation = .asleep then .ended else timers generation)

/-- A step that a call or a timer is not up to does nothing. -/
def take (s : DebounceRun β α) : DebounceStep β α → DebounceRun β α
  | .number key work => { s with debouncer := (s.debouncer.number key work).2 }
  | .enter g due =>
    match s.debouncer.call? g with
    | some ⟨_, key, _, _, .numbered, _⟩ =>
      match s.debouncer.pending.lookup key with
      | none =>
        { s with
          debouncer := s.debouncer.insert g due
          timers := Function.update s.timers g .asleep
          history := (g, .entered key) :: s.history }
      | some older =>
        { s with
          debouncer := s.debouncer.insert g due
          timers := Function.update (stopTimer s.timers older) g .asleep
          history := (g, .entered key) :: (older, .superseded) :: s.history }
    | _ => s
  | .wake g =>
    if s.timers g = .asleep then { s with timers := Function.update s.timers g .awake } else s
  | .check g =>
    if s.timers g = .awake then
      match s.debouncer.expire g with
      | (none, debouncer) => { s with debouncer, timers := Function.update s.timers g .ended }
      | (some _, debouncer) =>
        { s with
          debouncer
          timers := Function.update s.timers g .ended
          history := (g, .started) :: s.history }
    else s
  | .finish g result =>
    match s.debouncer.call? g with
    | some ⟨_, _, _, _, .running, _⟩ =>
      { s with
        debouncer := s.debouncer.finish g result.answer
        history := (g, .returned result) :: s.history }
    | _ => s
  | .deliver g =>
    match s.debouncer.deliverTo g with
    | (none, debouncer) => { s with debouncer }
    | (some answer, debouncer) =>
      { s with debouncer, history := (g, .resolved answer) :: s.history }
  | .drop g =>
    match s.debouncer.call? g with
    | some _ => { s with debouncer := s.debouncer.abandon g, dropped := g :: s.dropped }
    | none => s

/-- Steps one after the other. -/
def takeAll (s : DebounceRun β α) (steps : List (DebounceStep β α)) : DebounceRun β α :=
  steps.foldl take s

theorem takeAll_append (s : DebounceRun β α) (steps more : List (DebounceStep β α)) :
    s.takeAll (steps ++ more) = (s.takeAll steps).takeAll more :=
  List.foldl_append

/-- What has happened is not undone. -/
theorem history_suffix_take (s : DebounceRun β α) (step : DebounceStep β α) :
    s.history <:+ (s.take step).history := by
  cases step with
  | number key work => exact List.suffix_rfl
  | enter g due =>
    rw [take]
    split
    · split
      · exact List.suffix_cons ..
      · exact (List.suffix_cons ..).trans (List.suffix_cons ..)
    · exact List.suffix_rfl
  | wake g => rw [take]; split <;> exact List.suffix_rfl
  | check g =>
    rw [take]
    split
    · split
      · exact List.suffix_rfl
      · exact List.suffix_cons ..
    · exact List.suffix_rfl
  | finish g result =>
    rw [take]
    split
    · exact List.suffix_cons ..
    · exact List.suffix_rfl
  | deliver g =>
    rw [take]
    split
    · exact List.suffix_rfl
    · exact List.suffix_cons ..
  | drop g => rw [take]; split <;> exact List.suffix_rfl

theorem mem_story_take {s : DebounceRun β α} {g : Nat} {event : CallEvent α}
    (h : event ∈ s.story g) (step : DebounceStep β α) : event ∈ (s.take step).story g :=
  (((s.history_suffix_take step).filter _).map _).subset h

theorem mem_story_takeAll {s : DebounceRun β α} {g : Nat} {event : CallEvent α}
    (h : event ∈ s.story g) (steps : List (DebounceStep β α)) :
    event ∈ (s.takeAll steps).story g := by
  induction steps generalizing s with
  | nil => exact h
  | cons step steps ih => exact ih (mem_story_take h step)

/-- A timer that wakes up changes no call and is told of nowhere. -/
theorem take_wake_eq (s : DebounceRun β α) (g : Nat) :
    s.take (.wake g) = { s with timers := (s.take (.wake g)).timers } := by
  rw [take]
  split <;> rfl

variable {s : DebounceRun β α} {g : Nat} {c : DebouncedCall β α}

theorem timers_take_wake (h : s.timers g = .asleep ∨ s.timers g = .awake) :
    (s.take (.wake g)).timers g = .awake := by
  rw [take]
  obtain hasleep | hawake := h
  · rw [if_pos hasleep]
    exact Function.update_self ..
  · rw [if_neg (by simp [hawake])]
    exact hawake

theorem take_enter_of_none (hcall : s.debouncer.call? g = some c) (hstage : c.stage = .numbered)
    (hnone : s.debouncer.pending.lookup c.key = none) (due : Nat) :
    s.take (.enter g due) =
      { s with
        debouncer := s.debouncer.insert g due
        timers := Function.update s.timers g .asleep
        history := (g, .entered c.key) :: s.history } := by
  obtain ⟨_, key, _, _, _, _⟩ := c
  cases hstage
  simp only [take, hcall, hnone]

theorem take_enter_of_some (hcall : s.debouncer.call? g = some c) (hstage : c.stage = .numbered)
    {older : Nat} (holder : s.debouncer.pending.lookup c.key = some older) (due : Nat) :
    s.take (.enter g due) =
      { s with
        debouncer := s.debouncer.insert g due
        timers := Function.update (stopTimer s.timers older) g .asleep
        history := (g, .entered c.key) :: (older, .superseded) :: s.history } := by
  obtain ⟨_, key, _, _, _, _⟩ := c
  cases hstage
  simp only [take, hcall, holder]

theorem debouncer_take_enter (hcall : s.debouncer.call? g = some c) (hstage : c.stage = .numbered)
    (due : Nat) : (s.take (.enter g due)).debouncer = s.debouncer.insert g due := by
  cases holder : s.debouncer.pending.lookup c.key with
  | none => rw [take_enter_of_none hcall hstage holder]
  | some older => rw [take_enter_of_some hcall hstage holder]

theorem take_enter_of_not_numbered
    (h : ∀ c, s.debouncer.call? g = some c → c.stage ≠ .numbered) (due : Nat) :
    s.take (.enter g due) = s := by
  rw [take]
  split
  · next hcall => exact absurd rfl (h _ hcall)
  · rfl

theorem take_check_of_pending (hawake : s.timers g = .awake) (hcall : s.debouncer.call? g = some c)
    (hpending : s.debouncer.pending.lookup c.key = some g) :
    s.take (.check g) =
      { s with
        debouncer := { s.debouncer.update g (fun c => { c with stage := .running }) with
          pending := s.debouncer.pending.filter (·.1 ≠ c.key) }
        timers := Function.update s.timers g .ended
        history := (g, .started) :: s.history } := by
  rw [take, if_pos hawake, Debouncer.expire_of_pending hcall hpending]

/-- All that the check of a timer does. -/
theorem take_check_cases (s : DebounceRun β α) (g : Nat) :
    s.take (.check g) = s ∨
    (s.take (.check g) = { s with timers := Function.update s.timers g .ended } ∧
      ∀ c, s.debouncer.call? g = some c → s.debouncer.pending.lookup c.key ≠ some g) ∨
    ∃ c, s.debouncer.call? g = some c ∧ s.debouncer.pending.lookup c.key = some g ∧
      s.take (.check g) =
        { s with
          debouncer := { s.debouncer.update g (fun c => { c with stage := .running }) with
            pending := s.debouncer.pending.filter (·.1 ≠ c.key) }
          timers := Function.update s.timers g .ended
          history := (g, .started) :: s.history } := by
  by_cases hawake : s.timers g = .awake
  case neg => exact .inl (by rw [take, if_neg hawake])
  obtain ⟨hexpire, hnot⟩ | ⟨c, hcall, hpending, -⟩ := s.debouncer.expire_cases g
  · exact .inr (.inl ⟨by rw [take, if_pos hawake, hexpire], hnot⟩)
  · exact .inr (.inr ⟨c, hcall, hpending, take_check_of_pending hawake hcall hpending⟩)

theorem take_finish_of_running (hcall : s.debouncer.call? g = some c) (hstage : c.stage = .running)
    (result : WorkEnd α) :
    s.take (.finish g result) =
      { s with
        debouncer := s.debouncer.finish g result.answer
        history := (g, .returned result) :: s.history } := by
  obtain ⟨_, _, _, _, _, _⟩ := c
  cases hstage
  simp only [take, hcall]

theorem take_deliver_of_awaited {answer : Option α} (hcall : s.debouncer.call? g = some c)
    (hdone : c.stage = .done answer) (hawaited : c.awaited = true) :
    s.take (.deliver g) =
      { s with
        debouncer := s.debouncer.remove g
        history := (g, .resolved answer) :: s.history } := by
  rw [take, Debouncer.deliverTo_of_done hcall hdone, if_pos hawaited]

theorem take_deliver_of_not_awaited {answer : Option α} (hcall : s.debouncer.call? g = some c)
    (hdone : c.stage = .done answer) (hawaited : c.awaited ≠ true) :
    s.take (.deliver g) = { s with debouncer := s.debouncer.remove g } := by
  rw [take, Debouncer.deliverTo_of_done hcall hdone, if_neg hawaited]

theorem take_deliver_of_not_done
    (h : ∀ c, s.debouncer.call? g = some c → ∀ answer, c.stage ≠ .done answer) :
    s.take (.deliver g) = s := by
  rw [take, Debouncer.deliverTo_of_not_done h]

end DebounceRun

end MemoHints
