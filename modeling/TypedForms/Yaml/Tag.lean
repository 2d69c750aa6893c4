import TypedForms.Yaml.Moment
import TypedForms.Yaml.Problem

/-! Tags tell what nodes stand for. A scalar without quotes has the tag of the first kind of value
that its text is written like. -/
namespace TypedForms.Yaml

inductive Tag where
  | null | bool | int | float | timestamp | merge | binary | str | seq | map
  | other (name : String)
  deriving DecidableEq

namespace Tag

/-- What the short names of the common tags leave out. -/
def commonStart : String := "tag:yaml.org,2002:"

def name : Tag → String
  | .null => "!!null"
  | .bool => "!!bool"
  | .int => "!!int"
  | .float => "!!float"
  | .timestamp => "!!timestamp"
  | .merge => "!!merge"
  | .binary => "!!binary"
  | .str => "!!str"
  | .seq => "!!seq"
  | .map => "!!map"
  | .other name => name

def common : List Tag :=
  [.null, .bool, .int, .float, .timestamp, .merge, .binary, .str, .seq, .map]

/-- The tag with a name in short or in long form. -/
def ofName (name : String) : Tag :=
  let short :=
    if name.startsWith commonStart then "!!" ++ (name.drop commonStart.length).toString else name
  (common.find? (·.name == short)).getD (.other short)

open Moment (isDecimal)

def isHex (c : Char) : Bool := isDecimal c || ('a' ≤ c && c ≤ 'f') || ('A' ≤ c && c ≤ 'F')

def hexValue (c : Char) : Nat :=
  if isDecimal c then c.toNat - '0'.toNat
  else if 'a' ≤ c then c.toNat - 'a'.toNat + 10
  else c.toNat - 'A'.toNat + 10

/-- The value of digits in a base, if all of them belong to it. -/
def digitsIn? (base : Nat) (digits : List Char) : Option Nat :=
  if !digits.isEmpty && digits.all (fun c => isHex c && hexValue c < base) then
    some (digits.foldl (fun n c => n * base + hexValue c) 0)
  else none

/-- The magnitude of a whole number: decimal, or in the base that its first digits tell. -/
def magnitude? : List Char → Option Nat
  | '0' :: 'x' :: digits | '0' :: 'X' :: digits => digitsIn? 16 digits
  | '0' :: 'b' :: digits | '0' :: 'B' :: digits => digitsIn? 2 digits
  | '0' :: 'o' :: digits | '0' :: 'O' :: digits => digitsIn? 8 digits
  | ['0'] => some 0
  | '0' :: digits => digitsIn? 8 digits
  | digits => digitsIn? 10 digits

/-- A sign in front of a number left out. -/
def unsigned : List Char → List Char
  | '-' :: rest => rest
  | '+' :: rest => rest
  | rest => rest

/-- Whole numbers with 64 bits: with or without a sign from -2^63 to 2^63 - 1, and without one up to
2^64 - 1. `read` gives the magnitude. -/
def fits? (read : List Char → Option Nat) (text : List Char) : Option Int :=
  match text with
  | '-' :: digits => (read digits).bind fun n => if n ≤ Nat.pow 2 63 then some (-n) else none
  | '+' :: digits => (read digits).bind fun n => if n < Nat.pow 2 63 then some n else none
  | digits => (read digits).bind fun n => if n < Nat.pow 2 64 then some n else none

/-- A number in a base that two characters tell, with a sign in front of those or after them. -/
def signedIn? (base : Nat) (letter : Char) : List Char → Option Int
  | '-' :: '0' :: c :: digits =>
    if c == letter then fits? (digitsIn? base) ('-' :: digits) else none
  | '0' :: c :: digits => if c == letter then fits? (digitsIn? base) digits else none
  | _ => none

/-- The value of a whole number. Underscores do not count. -/
def wholeNumber? (text : List Char) : Option Int :=
  let plain := text.filter (· != '_')
  fits? magnitude? plain <|> signedIn? 2 'b' plain <|> signedIn? 8 'o' plain

/-- An exponent part, or nothing. -/
def isExponent : List Char → Bool
  | [] => true
  | c :: rest =>
    (c == 'e' || c == 'E') && !(unsigned rest).isEmpty && (unsigned rest).all isDecimal

/-- Digits with a decimal point somewhere and an exponent at the end. -/
def isDecimalFloat (text : List Char) : Bool :=
  let plain := unsigned text
  let whole := plain.takeWhile isDecimal
  match plain.dropWhile isDecimal with
  | '.' :: rest =>
    let places := rest.takeWhile isDecimal
    (!whole.isEmpty || !places.isEmpty) && isExponent (rest.dropWhile isDecimal)
  | rest => !whole.isEmpty && isExponent rest

/-- Whether a number with digits before and after its point, and a power of ten, is within the range
of numbers. With `size` digits before its point a number is below the power of ten of that size. -/
def isFinite (whole places : List Char) (exponent : Int) : Bool :=
  let digits := (whole ++ places).dropWhile (· == '0')
  let shift := exponent - places.length
  let size := digits.length + shift
  let value := Binary64.digitsValue digits
  digits.isEmpty || size ≤ 308 || (size = 309 &&
    (Binary64.ofRatio? false (value * Nat.pow 10 shift.toNat) (Nat.pow 10 (-shift).toNat)).isSome)

/-- The power of ten that an exponent part stands for. -/
def exponentValue : List Char → Int
  | _ :: '-' :: digits => -(Binary64.digitsValue digits : Int)
  | _ :: digits => Binary64.digitsValue (unsigned digits)
  | [] => 0

/-- Numbers with a decimal point or an exponent, if they are not too large. -/
def isFloat (text : List Char) : Bool :=
  let plain := unsigned text
  let rest := plain.dropWhile isDecimal
  let fraction := if rest.head? == some '.' then (rest.drop 1).takeWhile isDecimal else []
  let power := if rest.head? == some '.' then (rest.drop 1).dropWhile isDecimal else rest
  isDecimalFloat text && isFinite (plain.takeWhile isDecimal) fraction (exponentValue power)

/-- Whether underscores stand only between digits. -/
def dividesDigits : (afterDigit : Bool) → List Char → Bool
  | _, [] => true
  | afterDigit, '_' :: rest => afterDigit && (rest.head?.any isDecimal) && dividesDigits false rest
  | _, c :: rest => dividesDigits (isDecimal c) rest

def specialFloats : List String :=
  [".nan", ".NaN", ".NAN", ".inf", ".Inf", ".INF", "+.inf", "+.Inf", "+.INF", "-.inf", "-.Inf",
   "-.INF"]

/-- What a scalar without quotes is taken for. -/
def ofPlain (text : String) : Tag :=
  let chars := text.toList
  if ["", "~", "null", "Null", "NULL"].contains text then .null
  else if ["true", "True", "TRUE", "false", "False", "FALSE"].contains text then .bool
  else if specialFloats.contains text then .float
  else match chars.head? with
    | none => .str
    | some c =>
      if c == '.' then
        if dividesDigits false chars && isFloat (chars.filter (· != '_')) then .float else .str
      else if c == '+' || c == '-' || isDecimal c then
        if Moment.isMoment chars then .timestamp
        else if (wholeNumber? chars).isSome then .int
        else if isFloat (chars.filter (· != '_')) then .float
        else .str
      else .str

/-- Tags that a text must be written like. -/
def isChecked : Tag → Bool
  | .null | .bool | .int | .float | .timestamp => true
  | _ => false

/-- What a scalar with a tag is read as. A whole number with 63 bits is also a number with a
point. -/
def check (tag : Tag) (text : String) : Except Cause Tag :=
  let found := ofPlain text
  if !tag.isChecked || found = tag then .ok tag
  else if tag = .float && found = .int &&
    (wholeNumber? text.toList).any (fun n => n < 9223372036854775808) then .ok .float
  else .error (.otherTag found.name text tag.name)

end Tag

end TypedForms.Yaml
