import TypedForms.Binary64

/-! Points in time as documents write them: a date, or a date and a time of day. A letter before the
time asks for a time zone after it, a blank before the time forbids one. -/
namespace TypedForms.Yaml.Moment

def isDecimal (c : Char) : Bool := '0' ≤ c && c ≤ '9'

def daysInMonth (year month : Nat) : Nat :=
  if month == 2 then
    if year % 4 == 0 && (year % 100 != 0 || year % 400 == 0) then 29 else 28
  else if month == 4 || month == 6 || month == 9 || month == 11 then 30 else 31

/-- A number of one or two digits within bounds, and what follows it. -/
def number? (low high : Nat) (text : List Char) : Option (Nat × List Char) :=
  let digits := (text.take 2).takeWhile isDecimal
  let n := Binary64.digitsValue digits
  if !digits.isEmpty && low ≤ n && n ≤ high then some (n, text.drop digits.length) else none

/-- What follows a character that must come first. -/
def after? (c : Char) (text : List Char) : Option (List Char) :=
  if text.head? == some c then some (text.drop 1) else none

/-- What follows hours, minutes and seconds. Parts of a second may have any number of digits. -/
def timeOfDay? (text : List Char) : Option (List Char) := do
  let (_, text) ← number? 0 23 text
  let text ← after? ':' text
  let (_, text) ← number? 0 59 text
  let text ← after? ':' text
  let (_, text) ← number? 0 59 text
  match text with
  | mark :: c :: rest =>
    if (mark == '.' || mark == ',') && isDecimal c then some (rest.dropWhile isDecimal)
    else some text
  | _ => some text

/-- A letter for universal time, or a distance from it in hours and minutes. -/
def isZone (text : List Char) : Bool :=
  match text with
  | ['Z'] => true
  | [sign, h0, h1, ':', m0, m1] =>
    (sign == '+' || sign == '-') && [h0, h1, m0, m1].all isDecimal &&
      Binary64.digitsValue [h0, h1] ≤ 24 && Binary64.digitsValue [m0, m1] ≤ 60
  | _ => false

/-- What follows a date, whose year has four digits. -/
def date? (text : List Char) : Option (List Char) := do
  let year := text.takeWhile isDecimal
  let text ← after? '-' (text.dropWhile isDecimal)
  let (month, text) ← number? 1 12 text
  let text ← after? '-' text
  let (day, text) ← number? 1 31 text
  if year.length == 4 && day ≤ daysInMonth (Binary64.digitsValue year) month then some text
  else none

def isMoment (text : List Char) : Bool :=
  match date? text with
  | none => false
  | some [] => true
  | some (c :: rest) =>
    if c == 'T' || c == 't' then (timeOfDay? rest).any isZone
    else if c == ' ' then (timeOfDay? (rest.dropWhile (· == ' '))).any (·.isEmpty)
    else false

end TypedForms.Yaml.Moment
