/-!
# Throttled warnings

A warning that would come with every keystroke is let through once in a while.
-/

namespace MemoHints

/-- When a warning was let through last. Times are in milliseconds. -/
structure Throttle where
  cooldown : Nat := 300000
  last : Option Nat := none
deriving DecidableEq

/-- Whether a warning may pass now: when none did before, or the last one is long enough ago. -/
def Throttle.fire (throttle : Throttle) (now : Nat) : Bool × Throttle :=
  match throttle.last with
  | some last =>
    if now - last < throttle.cooldown then (false, throttle)
    else (true, { throttle with last := some now })
  | none => (true, { throttle with last := some now })

end MemoHints
