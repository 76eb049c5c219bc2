/-!
# Powers and sums of numbers

A larger library finds the powers of numbers, and the zero that a sum begins with, in other ways
than core does. In this library they are those of core, whatever else is imported.
-/

namespace MemoHints

@[default_instance high]
scoped instance (priority := high) corePower {α : Type} [NatPow α] : Pow α Nat := instPowNat

scoped instance (priority := high) coreZero : Zero Nat := Zero.ofOfNat0

end MemoHints
