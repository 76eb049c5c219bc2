import MemoHints.Decimal.Binary64

/-!
# Shortest decimals

The text of a double: the fewest digits that read back as the same number, and among those the
nearest. Numbers of moderate size are written without an exponent.
-/

namespace MemoHints.Binary64

/-- The numbers that round to a double, as a fraction's numerators over `4 ^ -1` of its unit: the
number itself, the least, the greatest, and whether both ends belong. -/
structure Interval where
  centre : Nat
  low : Nat
  high : Nat
  closed : Bool

/-- The interval around a mantissa. Below a power of two the next number down is half as far. -/
def interval (x : Binary64) : Interval :=
  let m := x.mantissa
  { centre := 4 * m
    low := if m = 2 ^ 52 ∧ minExponent < x.exponent then 4 * m - 1 else 4 * m - 2
    high := 4 * m + 2
    closed := m % 2 = 0 }

/-- Whether `d · 10 ^ k` lies in the interval whose numerators count units of `num / den`. -/
def Interval.holds (i : Interval) (num den : Nat) (d : Nat) (k : Int) : Bool :=
  let (a, b) := if 0 ≤ k then (d * 10 ^ k.toNat * den, num) else (d * den, num * 10 ^ (-k).toNat)
  if i.closed then i.low * b ≤ a && a ≤ i.high * b else i.low * b < a && a < i.high * b

/-- Decimal digits of a natural number, the highest first. -/
def decimalDigits (n : Nat) : List Char := Nat.toDigits 10 n

/-- The exponent of ten of the first digit of `num / den`. -/
def leadingExponent (num den : Nat) : Int :=
  let e : Int := ((decimalDigits num).length : Int) - (decimalDigits den).length
  let reached := if 0 ≤ e then den * 10 ^ e.toNat ≤ num else den ≤ num * 10 ^ (-e).toNat
  if reached then e else e - 1

/-- Of the two neighbours of the number on the grid of `10 ^ k`, the one that reads back, or the
nearer one if both do. -/
def neighbour? (x : Binary64) (k : Int) : Option Nat :=
  let i := x.interval
  let (num, den) : Nat × Nat :=
    if 2 ≤ x.exponent then (2 ^ (x.exponent - 2).toNat, 1) else (1, 2 ^ (2 - x.exponent).toNat)
  let (a, b) :=
    if 0 ≤ k then (i.centre * num, den * 10 ^ k.toNat) else (i.centre * num * 10 ^ (-k).toNat, den)
  let d := a / b
  match i.holds num den d k, i.holds num den (d + 1) k with
  | true, true => some (divHalfEven a b)
  | true, false => some d
  | false, true => some (d + 1)
  | false, false => none

/-- Digits and the exponent of ten of the last one, trying one digit more at a time. -/
def shortestFrom (x : Binary64) (lead : Int) : Nat → Nat → Nat × Int
  | 0, _ => (0, 0)
  | tries + 1, count =>
    let k := lead + 1 - count
    match x.neighbour? k with
    | some d => (d, k)
    | none => shortestFrom x lead tries (count + 1)

/-- Digits without zeros at their end, and the exponent of ten of the first. -/
def shortest (x : Binary64) : List Char × Int :=
  if x.isZero then (['0'], 0)
  else
    let (num, den) := x.ratio
    let (d, k) := shortestFrom x (leadingExponent num den) 17 1
    let digits := decimalDigits d
    let lead := k + digits.length - 1
    ((digits.reverse.dropWhile (· == '0')).reverse, lead)

/-- The digits after the point: at least one. -/
def fraction (digits : List Char) : List Char := '.' :: if digits.isEmpty then ['0'] else digits

/-- Numbers from `10 ^ -5` to below `10 ^ 16` are written without an exponent, and always with a
point; the exponent of any other has a sign and no leading zeros. -/
def text (x : Binary64) : String :=
  let (digits, lead) := x.shortest
  let body :=
    if 0 ≤ lead ∧ lead < 16 then
      let n := lead.toNat + 1
      digits.take n ++ List.replicate (n - digits.length) '0' ++ fraction (digits.drop n)
    else if -5 ≤ lead ∧ lead < 0 then
      '0' :: '.' :: List.replicate (-lead - 1).toNat '0' ++ digits
    else
      digits.take 1 ++ (if digits.length ≤ 1 then [] else fraction (digits.drop 1)) ++
        ['e', if lead < 0 then '-' else '+'] ++ decimalDigits lead.natAbs
  String.ofList (if x.negative then '-' :: body else body)

end MemoHints.Binary64
