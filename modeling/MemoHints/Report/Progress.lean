import MemoHints.Json.Basic

/-!
# Progress

Workers count finished files, and the count is reported no more often than once in an interval. The
report at the start and the one of the last file are never left out. Counting and the decision to
report are one step, so reports come in order.
-/

namespace MemoHints

/-- So many of all files are done. -/
structure Progress where
  processed : Nat
  total : Nat
deriving DecidableEq

def Progress.toJson (progress : Progress) : Json :=
  .obj [("processed", .nat progress.processed), ("total", .nat progress.total)]

/-- A tenth of a second, in nanoseconds. -/
def progressInterval : Nat := 100000000

/-- The count, the time of the last report, and the reports so far. Times are in nanoseconds. -/
structure ProgressMeter where
  total : Nat
  interval : Nat := progressInterval
  processed : Nat := 0
  lastReport : Option Nat := none
  reports : List Progress := []

namespace ProgressMeter

/-- Whether the last report is long enough ago. -/
def isDue (meter : ProgressMeter) (now : Nat) : Bool :=
  match meter.lastReport with
  | some last => meter.interval ≤ now - last
  | none => true

/-- Reports the count if that is due or forced. -/
def emit (meter : ProgressMeter) (force : Bool) (now : Nat) : ProgressMeter :=
  if force || meter.isDue now then
    { meter with
      lastReport := some now
      reports := meter.reports ++ [⟨meter.processed, meter.total⟩] }
  else meter

/-- Reports that nothing is done yet. -/
def start (meter : ProgressMeter) (now : Nat) : ProgressMeter := meter.emit true now

/-- One more file is done. -/
def advance (meter : ProgressMeter) (now : Nat) : ProgressMeter :=
  let meter := { meter with processed := meter.processed + 1 }
  meter.emit (meter.total ≤ meter.processed) now

/-- One more file is done, at the time that the clock shows for this count. -/
def countOne (meter : ProgressMeter) (clock : Nat → Nat) : ProgressMeter :=
  meter.advance (clock (meter.processed + 1))

end ProgressMeter

end MemoHints
