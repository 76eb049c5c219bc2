import MemoHints.Numbers

/-!
# Double precision numbers

Finite numbers of 64-bit floating point as integers times powers of two, with the roundings that
reading a decimal needs: to the nearest, and to the even one of two that are equally near.
-/

namespace MemoHints

/-- The number `±mantissa · 2 ^ exponent`. -/
structure Binary64 where
  negative : Bool
  mantissa : Nat
  exponent : Int
deriving DecidableEq, Repr

namespace Binary64

/-- The least exponent of a mantissa's unit. -/
def minExponent : Int := -1074

/-- The greatest exponent of a mantissa's unit. -/
def maxExponent : Int := 971

/-- Zero, the positive one. -/
def zero : Binary64 := ⟨false, 0, minExponent⟩

def isZero (x : Binary64) : Bool := x.mantissa == 0

/-- The quotient rounded to the nearest natural number, a half to the even one. -/
def divHalfEven (a b : Nat) : Nat :=
  let q := a / b
  let r := a % b
  if 2 * r < b then q else if b < 2 * r then q + 1 else q + q % 2

/-- `num / (den · 2 ^ e)` as a fraction. -/
def unscale (num den : Nat) (e : Int) : Nat × Nat :=
  if 0 ≤ e then (num, den * 2 ^ e.toNat) else (num * 2 ^ (-e).toNat, den)

/-- The exponent at which `num / den` has 53 binary digits before the point, or the least one. -/
def unitExponent (num den : Nat) : Int :=
  let e : Int := (Nat.log2 num : Int) - Nat.log2 den - 53
  let (a, b) := unscale num den e
  max minExponent (if 2 ^ 53 * b ≤ a then e + 1 else e)

/-- The double nearest to `num / den`; none when that is too large for one. -/
def ofRatio? (num den : Nat) : Option Binary64 :=
  if num = 0 then some zero
  else
    let e := unitExponent num den
    let (a, b) := unscale num den e
    let m := divHalfEven a b
    let (m, e) := if m = 2 ^ 53 then (2 ^ 52, e + 1) else (m, e)
    if maxExponent < e then none
    else if m = 0 then some zero
    else some ⟨false, m, e⟩

/-- The magnitude as a fraction. -/
def ratio (x : Binary64) : Nat × Nat :=
  if 0 ≤ x.exponent then (x.mantissa * 2 ^ x.exponent.toNat, 1)
  else (x.mantissa, 2 ^ (-x.exponent).toNat)

/-- Product of magnitudes. -/
def mul? (x y : Binary64) : Option Binary64 :=
  let (a, b) := x.ratio
  let (c, d) := y.ratio
  ofRatio? (a * c) (b * d)

/-- Quotient of magnitudes, which is never too large here since divisors are at least one. -/
def div (x y : Binary64) : Binary64 :=
  let (a, b) := x.ratio
  let (c, d) := y.ratio
  (ofRatio? (a * d) (b * c)).getD zero

/-- The double nearest to a power of ten. -/
def powerOfTen? (k : Nat) : Option Binary64 := ofRatio? (10 ^ k) 1

/-- The greatest exponent of ten that is divided or multiplied by at once. -/
def maxPower : Nat := 308

/-- Divides by `10 ^ k` in steps of at most `maxPower`. -/
def scaleDown (x : Binary64) (k : Nat) : Binary64 :=
  if x.isZero then x
  else if _h : k ≤ maxPower then x.div ((powerOfTen? k).getD zero)
  else scaleDown (x.div ((powerOfTen? maxPower).getD zero)) (k - maxPower)
termination_by k
decreasing_by simp only [maxPower] at _h ⊢; omega

/-- `significand · 10 ^ exponent` by one rounding of the significand and one of the product or of
each quotient; none when the number is too large. -/
def ofDecimal? (significand : Nat) (exponent : Int) : Option Binary64 := do
  let x ← ofRatio? significand 1
  if exponent < 0 then some (scaleDown x (-exponent).toNat)
  else if x.isZero then some x
  else if maxPower < exponent.toNat then none
  else x.mul? (← powerOfTen? exponent.toNat)

/-- The same magnitude with the given sign. -/
def withSign (negative : Bool) (x : Binary64) : Binary64 := { x with negative }

end Binary64

end MemoHints
