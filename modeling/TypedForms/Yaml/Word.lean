import TypedForms.Text.Utf8
import TypedForms.Yaml.Scalar
import TypedForms.Yaml.Token

/-! Words with a meaning of their own: the names of anchors, tags, and directives. All readers tell
how many characters they have taken. -/
namespace TypedForms.Yaml

def isWordChar (c : Char) : Bool :=
  ('0' ≤ c && c ≤ '9') || ('A' ≤ c && c ≤ 'Z') || ('a' ≤ c && c ≤ 'z') || c == '_' || c == '-'

def wordLength (rest : List Char) : Nat := (rest.takeWhile isWordChar).length

/-- Whether the name of an anchor may end before a text. -/
def endsAnchor : List Char → Bool
  | [] => true
  | c :: rest =>
    endsWord (c :: rest) || ['?', ':', ',', ']', '\x7d', '%', '@', '\x60'].contains c

/-- Reads the name of an anchor after its indicator. -/
def anchorName (rest : List Char) : Except Cause (String × Nat) :=
  let name := rest.takeWhile isWordChar
  if name.isEmpty || !endsAnchor (rest.drop name.length) then .error .noWord
  else .ok (String.ofList name, name.length)

def isUriChar (c : Char) : Bool :=
  isWordChar c || [';', '/', '?', ':', '@', '&', '=', '+', '$', '.', ',', '!', '~', '*', '\'',
    '(', ')', '[', ']'].contains c

/-- How many bytes belong to a character, by the first of them. -/
def sequenceLength? (octet : Nat) : Option Nat :=
  if octet < 0x80 then some 1
  else if 0xc0 ≤ octet && octet < 0xe0 then some 2
  else if 0xe0 ≤ octet && octet < 0xf0 then some 3
  else if 0xf0 ≤ octet && octet < 0xf8 then some 4
  else none

/-- Takes up an escaped byte, where `due` more bytes of a character are to come. The result is how
many are to come after it. -/
def escapedOctet (due octet : Nat) : Except Cause Nat :=
  if due = 0 then
    match sequenceLength? octet with
    | some length => .ok (length - 1)
    | none => .error .badLeadingOctet
  else if Text.Utf8.isContinuation octet then .ok (due - 1)
  else .error .badTrailingOctet

/-- Reads the bytes of a URI, in which `%` and two hexadecimal digits stand for a byte. -/
def uriBytes : (due : Nat) → List Char → (bytes : List UInt8) → (count : Nat) →
    Except Cause (List UInt8 × Nat)
  | due, '%' :: c0 :: c1 :: rest, bytes, count =>
    match hexDigit? c0, hexDigit? c1 with
    | some high, some low =>
      match escapedOctet due (high * 16 + low) with
      | .ok due => uriBytes due rest (UInt8.ofNat (high * 16 + low) :: bytes) (count + 3)
      | .error cause => .error cause
    | _, _ => .error .noOctet
  | due, [], bytes, count => if due = 0 then .ok (bytes.reverse, count) else .error .noOctet
  | due, c :: rest, bytes, count =>
    if due ≠ 0 || c == '%' then .error .noOctet
    else if isUriChar c then uriBytes 0 rest (UInt8.ofNat c.toNat :: bytes) (count + 1)
    else .ok (bytes.reverse, count)

def uri (rest : List Char) : Except Cause (String × Nat) := do
  let (bytes, count) ← uriBytes 0 rest [] 0
  .ok (Text.Utf8.text bytes, count)

def nonEmptyUri (rest : List Char) : Except Cause (String × Nat) := do
  let (text, count) ← uri rest
  if count = 0 then .error .noUri else .ok (text, count)

/-- The handle that a text starts with after an exclamation mark: a word with a mark on both sides,
or else nothing but the first mark. -/
def handleLength (rest : List Char) : Nat :=
  let word := wordLength rest
  if (rest.drop word).head? == some '!' then word + 1 else 0

/-- Reads a tag after its first exclamation mark. The result is its handle, which is empty for a
tag in angle brackets and for a lone mark, and its suffix. -/
def tagWord (rest : List Char) : Except Cause (String × String × Nat) := do
  let (handle, suffix, count) ←
    match rest with
    | '<' :: rest => do
      let (text, count) ← nonEmptyUri rest
      if (rest.drop count).head? == some '>' then .ok ("", text, count + 2)
      else .error .noClosingAngle
    | _ => do
      let length := handleLength rest
      if length = 0 then
        let (text, count) ← uri rest
        if text == "" then .ok ("", "!", count) else .ok ("!", text, count)
      else
        let (text, count) ← nonEmptyUri (rest.drop length)
        .ok ("!" ++ String.ofList (rest.take length), text, length + count)
  if endsWord (rest.drop count) then .ok (handle, suffix, count) else .error .noBlankOrBreak

/-- Reads one of the two numbers of a version. -/
def versionNumber (rest : List Char) : Except Cause (Nat × Nat) :=
  let digits := rest.takeWhile fun c => '0' ≤ c && c ≤ '9'
  if digits.length > 2 then .error .longVersion
  else if digits.isEmpty then .error .noVersion
  else .ok (digits.foldl (fun n c => n * 10 + (c.toNat - '0'.toNat)) 0, digits.length)

def versionDirective (rest : List Char) : Except Cause (Token.Kind × Nat) := do
  let blanks := (rest.takeWhile isBlank).length
  let (major, majorLength) ← versionNumber (rest.drop blanks)
  let tail := rest.drop (blanks + majorLength)
  if tail.head? == some '.' then
    let (minor, minorLength) ← versionNumber (tail.drop 1)
    .ok (.version major minor, blanks + majorLength + 1 + minorLength)
  else .error .noVersionDot

/-- Reads the handle that a directive defines. -/
def definedHandle (rest : List Char) : Except Cause Nat :=
  match rest with
  | '!' :: rest =>
    let length := handleLength rest
    if length = 0 && wordLength rest > 0 then .error .noExclamation else .ok (length + 1)
  | _ => .error .noExclamation

def handleDirective (rest : List Char) : Except Cause (Token.Kind × Nat) := do
  let blanks := (rest.takeWhile isBlank).length
  let length ← definedHandle (rest.drop blanks)
  let name := (rest.drop blanks).take length
  let tail := rest.drop (blanks + length)
  let middle := (tail.takeWhile isBlank).length
  if middle = 0 then .error .noBlank
  else
    let (text, count) ← nonEmptyUri (tail.drop middle)
    if endsWord (tail.drop (middle + count)) then
      .ok (.handle (String.ofList name) text, blanks + length + middle + count)
    else .error .noBlankOrBreak

/-- Reads a directive after its percent sign, with the rest of its line and the line end. -/
def directive (rest : List Char) : Except Cause (Token.Kind × Nat) := do
  let name := rest.takeWhile isWordChar
  if name.isEmpty then .error .noDirectiveName
  else if !endsWord (rest.drop name.length) then .error .badDirectiveName
  else
    let (kind, count) ← match String.ofList name with
      | "YAML" => versionDirective (rest.drop name.length)
      | "TAG" => handleDirective (rest.drop name.length)
      | _ => .error .unknownDirective
    let taken := name.length + count
    let blank ← blankTail (rest.drop taken)
    let lineEnd := if (rest.drop (taken + blank)).isEmpty then 0 else 1
    .ok (kind, taken + blank + lineEnd)

end TypedForms.Yaml
