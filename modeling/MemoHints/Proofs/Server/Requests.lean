import MemoHints.Server.Basic
import MemoHints.Proofs.Checker.Transparency

/-!
# Requests to a quiet server

When no request for hints is waiting, one that comes alone is not superseded: it waits for its quiet
period, and then it is worked on just as a hover is.
-/

namespace MemoHints

namespace Debouncer

variable {β α σ : Type}

/-- No call is waiting, running or to be delivered. -/
def IsIdle (d : Debouncer β α) : Prop := d.calls = [] ∧ d.pending = []

variable {d : Debouncer β α}

/-- A call that comes alone. -/
theorem schedule_of_isIdle (h : d.IsIdle) (key : String) (work : β) (due : Nat) :
    d.schedule key work due =
      (d.next,
        { next := d.next + 1
          calls := [{ generation := d.next, key, work, due, stage := .waiting }]
          pending := [(key, d.next)] }) := by
  obtain ⟨next, calls, pending⟩ := d
  obtain ⟨rfl, rfl⟩ := h
  simp [schedule, number, insert, call?, update]

theorem dueMoments_of_single (next : Nat) (c : DebouncedCall β α) (pending : List (String × Nat))
    (hc : c.stage = .waiting) :
    dueMoments { next, calls := [c], pending } c.due = [c.due] := by
  simp [dueMoments, dueCalls, isDue, hc, List.eraseReps, List.eraseRepsBy, List.eraseRepsBy.loop]

/-- A single call is worked on when it is due. -/
theorem fireDue_of_single (run : β → σ → Option α × σ) (next : Nat) (c : DebouncedCall β α)
    (hc : c.stage = .waiting) (s : σ) :
    fireDue run c.due { next, calls := [c], pending := [(c.key, c.generation)] } s =
      ({ next, calls := [{ c with stage := .done (run c.work s).1 }], pending := [] },
        [c.generation], (run c.work s).2) := by
  simp [fireDue, dueCalls, isDue, hc, expire, call?, update, finish]

end Debouncer

/-- Working on a job apart from any other is running it. -/
theorem HintJob.run_eq_examine (job : HintJob) (around : Surroundings) (checker : Checker) :
    job.run around checker =
      { answer := (job.examine around checker none).answer
        asked := (job.examine around checker none).asked
        checker := (job.examine around checker none).checker.keepDraft
          (job.examine around checker none).draft } := rfl

namespace Server

variable {around : Surroundings} {server : Server} {uri : Uri} {job : HintJob}

/-- The one job of a moment is run. -/
theorem workMoment_of_single (around : Surroundings) (next : Nat)
    (c : DebouncedCall HintJob (List Hint)) (hc : c.stage = .waiting) (checker : Checker) :
    workMoment around
        ({ next, calls := [c], pending := [(c.key, c.generation)] }, checker, []) c.due =
      ({ next
         calls := [{ c with stage := .done (c.work.run around checker).answer.toOption }]
         pending := [] },
        (c.work.run around checker).checker, (c.work.run around checker).asked) := by
  simp [workMoment, Debouncer.fireDue_of_single _ _ _ hc, workOff, HintJob.run_eq_examine]

theorem hints_of_none (h : server.hintJob? uri = none) (around : Surroundings) :
    server.hints around uri = { answer := none, server } := by
  simp [hints, hintsTogether, requestAll, requestHints, h]

/-- Hints that are asked for alone are those of the job, as it is run when the quiet period ends. -/
theorem hints_of_some (hidle : server.debouncer.IsIdle)
    (hlimit : server.config.debounce < server.config.hintTimeout)
    (h : server.hintJob? uri = some job) (around : Surroundings) :
    server.hints around uri =
      { answer := (job.run around server.checker).answer.toOption
        asked := (job.run around server.checker).asked
        server := { server with
          checker := (job.run around server.checker).checker
          debouncer := { next := server.debouncer.next + 1 }
          now := server.now + server.config.debounce } } := by
  have hwait : waitingTime server.config = server.config.debounce := Nat.min_eq_left hlimit.le
  let c : DebouncedCall HintJob (List Hint) :=
    { generation := server.debouncer.next, key := uri.toText, work := job
      due := server.now + server.config.debounce, stage := .waiting }
  have hmoments := Debouncer.dueMoments_of_single (server.debouncer.next + 1) c
    [(c.key, c.generation)] rfl
  have hwork := workMoment_of_single around (server.debouncer.next + 1) c rfl server.checker
  simp only [c] at hmoments hwork
  simp [hints, hintsTogether, requestAll, requestHints, h, Debouncer.schedule_of_isIdle hidle,
    Nat.not_le.mpr hlimit, elapse, hwait, hmoments, hwork, Debouncer.deliver]

/-! ## What a document has hints for -/

/-- Every job is for an open document, in the workspace of the editor. -/
theorem exists_document_of_hintJob? (h : server.hintJob? uri = some job) :
    ∃ document, server.document? uri = some document ∧ job.text = document.text ∧
      job.location.root = server.session.root := by
  unfold hintJob? at h
  split at h
  · split at h
    · cases h
    · next document hopen =>
      split at h
      · cases h
        exact ⟨document, hopen, rfl, rfl⟩
      · cases h
  · cases h

end Server

end MemoHints
