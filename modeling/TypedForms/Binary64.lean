import TypedForms.Text.Quoted

/-! Binary floating point numbers of 64 bits, read from plain decimal literals.
A number is kept as its bits: a sign, eleven exponent bits and 52 fraction bits.
All rounding is done in exact arithmetic on natural numbers. -/
namespace TypedForms

structure Binary64 where
  bits : UInt64
  deriving DecidableEq

namespace Binary64

/-- The bits of positive infinity; every finite magnitude has smaller bits. -/
def infinityBits : Nat := 0x7ff0000000000000

def signBit : Nat := 0x8000000000000000

/-- The whole number nearest to `num / den`, a half going to the even neighbour. -/
def roundRatio (num den : Nat) : Nat :=
  let quotient := num / den
  let twice := 2 * (num % den)
  if twice > den || (twice == den && quotient % 2 == 1) then quotient + 1 else quotient

/-- The weight of the leading bit of a significand that uses all its bits. -/
def leadingBit : Nat := Nat.pow 2 52

/-- The greatest `k` with `2 ^ k ≤ num / den`, for positive `num` and `den`. -/
def ratioLog2 (num den : Nat) : Int :=
  let a := num.log2
  let b := den.log2
  if num * Nat.pow 2 b ≥ den * Nat.pow 2 a then (a : Int) - b else (a : Int) - b - 1

/-- The magnitude bits nearest to `num / den`. Stepping the exponent up by one adds
`2 ^ 52` to the bits, so a significand that rounds up to `2 ^ 53` carries by itself. -/
def magnitudeBits (num den : Nat) : Nat :=
  if num == 0 then 0
  else
    let exponent := max (ratioLog2 num den - 52) (-1074)
    let significand :=
      if exponent < 0 then roundRatio (num * Nat.pow 2 (-exponent).toNat) den
      else roundRatio num (den * Nat.pow 2 exponent.toNat)
    (exponent + 1074).toNat * leadingBit + significand

/-- The number nearest to `± num / den`, if it is in range. -/
def ofRatio? (negative : Bool) (num den : Nat) : Option Binary64 :=
  let magnitude := magnitudeBits num den
  if magnitude < infinityBits then
    some ⟨UInt64.ofNat (if negative then signBit + magnitude else magnitude)⟩
  else none

/-- The value of a digit string, the first digit weighing most. -/
def digitsValue (digits : List Char) : Nat :=
  digits.foldl (fun value c => value * 10 + (c.toNat - '0'.toNat)) 0

/-- Reads digits with at most one decimal point among them. -/
def ofUnsigned? (negative : Bool) (literal : List Char) : Option Binary64 :=
  let whole := literal.takeWhile (· != '.')
  let places := (literal.dropWhile (· != '.')).drop 1
  ofRatio? negative (digitsValue (whole ++ places)) (Nat.pow 10 places.length)

/-- Reads a number literal: an optional sign, then digits with at most one decimal point.
The result is missing when the magnitude is out of range. -/
def ofLiteral? (literal : List Char) : Option Binary64 :=
  match literal with
  | '-' :: rest => ofUnsigned? true rest
  | '+' :: rest => ofUnsigned? false rest
  | rest => ofUnsigned? false rest

def isNegative (x : Binary64) : Bool := x.bits.toNat ≥ signBit

def magnitude (x : Binary64) : Nat := x.bits.toNat % signBit

def isInfinite (x : Binary64) : Bool := x.magnitude == infinityBits

def isNaN (x : Binary64) : Bool := x.magnitude > infinityBits

/-- A finite magnitude is `significand * 2 ^ exponent`. -/
def significand (x : Binary64) : Nat :=
  if x.magnitude < leadingBit then x.magnitude else x.magnitude % leadingBit + leadingBit

def exponent (x : Binary64) : Int :=
  if x.magnitude < leadingBit then -1074 else (x.magnitude / leadingBit : Nat) - 1075

/-- The sixteen hexadecimal digits of the bits. -/
def hex (x : Binary64) : String := String.ofList (Text.hexDigits 16 x.bits.toNat)

end Binary64

end TypedForms
