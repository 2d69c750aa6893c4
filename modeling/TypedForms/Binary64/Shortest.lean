import TypedForms.Binary64

/-! The shortest decimal text of a number: the fewest significant digits that read
back to the same number, and of those the nearest to it. -/
namespace TypedForms.Binary64

/-- A positive decimal: `digits * 10 ^ exponent`. -/
structure Decimal where
  digits : Nat
  exponent : Int

/-- The open or closed interval of the reals that round to a number. All three points are
multiples of `scaleNum / scaleDen`, so that they are compared as natural numbers. -/
structure Interval where
  low : Nat
  value : Nat
  high : Nat
  closed : Bool
  scaleNum : Nat
  scaleDen : Nat

/-- The interval of a finite nonzero number in quarters of its unit. Below a power of two the
neighbour is only half as far away. -/
def interval (x : Binary64) : Interval :=
  let m := x.significand
  let q := x.exponent - 2
  let narrow := m == leadingBit && q + 2 > -1074
  { low := if narrow then 4 * m - 1 else 4 * m - 2
    value := 4 * m
    high := 4 * m + 2
    closed := m % 2 == 0
    scaleNum := if q < 0 then 1 else Nat.pow 2 q.toNat
    scaleDen := if q < 0 then Nat.pow 2 (-q).toNat else 1 }

/-- The numerator and denominator of `10 ^ k`. -/
def powerOfTen (k : Int) : Nat × Nat :=
  if k < 0 then (1, Nat.pow 10 (-k).toNat) else (Nat.pow 10 k.toNat, 1)

namespace Interval

/-- The value of the interval as a fraction of the grid unit `10 ^ k`. -/
def onGrid (i : Interval) (k : Int) : Nat × Nat :=
  let unit := powerOfTen k
  (i.value * i.scaleNum * unit.2, i.scaleDen * unit.1)

/-- Whether the grid point `n * 10 ^ k` rounds to the number of the interval. -/
def admits (i : Interval) (n : Nat) (k : Int) : Bool :=
  let unit := powerOfTen k
  let point := n * unit.1 * i.scaleDen
  let low := i.low * i.scaleNum * unit.2
  let high := i.high * i.scaleNum * unit.2
  if i.closed then low ≤ point && point ≤ high else low < point && point < high

/-- Of the two grid points around the value, one that rounds to the number: the nearer if both
do, and the even one if they are equally near. -/
def gridPoint? (i : Interval) (k : Int) : Option Nat :=
  let (num, den) := i.onGrid k
  let below := num / den
  let nearest := roundRatio num den
  if i.admits nearest k then some nearest
  else if i.admits below k then some below
  else if i.admits (below + 1) k then some (below + 1)
  else none

/-- Tries grids from the coarse one with unit `10 ^ k` on to ever finer ones. -/
def search (i : Interval) : (tries : Nat) → (k : Int) → Decimal
  | 0, k => ⟨(i.onGrid k).1 / (i.onGrid k).2, k⟩
  | tries + 1, k =>
    match i.gridPoint? k with
    | some n => ⟨n, k⟩
    | none => i.search tries (k - 1)

/-- A `k` with `10 ^ k ≤ value < 10 ^ (k + 1)`: the decimal logarithm is estimated from the
binary one and then corrected by at most one. -/
def magnitude (i : Interval) : Int :=
  let log2 := ratioLog2 (i.value * i.scaleNum) i.scaleDen
  let guess := Int.fdiv (log2 * 30103) 100000
  let reaches (k : Int) : Bool := (i.onGrid k).1 ≥ (i.onGrid k).2
  if reaches (guess + 1) then guess + 1 else if reaches guess then guess else guess - 1

end Interval

/-- Seventeen significant digits always suffice. -/
def shortest (x : Binary64) : Decimal :=
  (interval x).search 17 (interval x).magnitude

/-- Significant digits without trailing zeros, and the exponent of the first of them. -/
def significantDigits (x : Binary64) : List Char × Int :=
  let decimal := x.shortest
  let written := Nat.toDigits 10 decimal.digits
  let digits := (written.reverse.dropWhile (· == '0')).reverse
  (digits, decimal.exponent + written.length - 1)

/-- Exponents that are written without an exponent part. -/
def isPositional (exponent : Int) : Bool := -4 ≤ exponent && exponent < 6

def positional (digits : List Char) (exponent : Int) : List Char :=
  if exponent < 0 then
    '0' :: '.' :: List.replicate (-exponent - 1).toNat '0' ++ digits
  else
    let whole := exponent.toNat + 1
    let padded := digits ++ List.replicate (whole - digits.length) '0'
    if digits.length ≤ whole then padded else padded.take whole ++ '.' :: padded.drop whole

/-- One digit before the point, and a signed exponent of at least two digits. -/
def scientific (digits : List Char) (exponent : Int) : List Char :=
  let fraction := digits.drop 1
  let point := if fraction.isEmpty then [] else '.' :: fraction
  let size := Nat.toDigits 10 exponent.natAbs
  digits.take 1 ++ point ++ 'e' :: (if exponent < 0 then '-' else '+') ::
    (if size.length < 2 then '0' :: size else size)

def render (x : Binary64) : String :=
  if x.isNaN then "NaN"
  else
    let sign := if x.isNegative then ['-'] else []
    if x.isInfinite then if x.isNegative then "-Inf" else "+Inf"
    else if x.magnitude == 0 then String.ofList (sign ++ ['0'])
    else
      let (digits, exponent) := x.significantDigits
      String.ofList (sign ++
        if isPositional exponent then positional digits exponent
        else scientific digits exponent)

end TypedForms.Binary64
