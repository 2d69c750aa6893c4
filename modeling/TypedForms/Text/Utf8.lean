/-! Texts and their bytes. When bytes are read as text, every byte that is not part of a
well-formed sequence (shortest form, no surrogate, at most U+10FFFF) becomes one replacement
character, and reading goes on at the next byte. -/
namespace TypedForms.Text.Utf8

def replacement : Char := Char.ofNat 0xfffd

/-- A byte of the form 10xxxxxx. -/
def isContinuation (b : Nat) : Bool := 0x80 ≤ b && b < 0xc0

def join (high low : Nat) : Nat := high * 64 + low % 64

def pair? (a b : Nat) : Option Char :=
  if 0xc2 ≤ a && a < 0xe0 && isContinuation b then some (Char.ofNat (join (a % 32) b)) else none

def triple? (a b c : Nat) : Option Char :=
  let n := join (join (a % 16) b) c
  if 0xe0 ≤ a && a < 0xf0 && isContinuation b && isContinuation c && 0x800 ≤ n &&
      !(0xd800 ≤ n && n < 0xe000) then
    some (Char.ofNat n)
  else none

def quadruple? (a b c d : Nat) : Option Char :=
  let n := join (join (join (a % 8) b) c) d
  if 0xf0 ≤ a && a < 0xf8 && isContinuation b && isContinuation c && isContinuation d &&
      0x10000 ≤ n && n < 0x110000 then
    some (Char.ofNat n)
  else none

/-- The character that starts at byte `a`, and how many of the following bytes belong to it. -/
def leading (a : Nat) (rest : List Nat) : Char × Nat :=
  if a < 0x80 then (Char.ofNat a, 0)
  else
    let two := match rest with
      | b :: _ => (pair? a b).map (·, 1)
      | _ => none
    let three := match rest with
      | b :: c :: _ => (triple? a b c).map (·, 2)
      | _ => none
    let four := match rest with
      | b :: c :: d :: _ => (quadruple? a b c d).map (·, 3)
      | _ => none
    (two <|> three <|> four).getD (replacement, 0)

/-- Reads on after leaving out `skip` bytes, which the character before has taken. -/
def decodeFrom : (skip : Nat) → List Nat → List Char
  | _, [] => []
  | skip + 1, _ :: rest => decodeFrom skip rest
  | 0, a :: rest => (leading a rest).1 :: decodeFrom (leading a rest).2 rest

def decode (bytes : List UInt8) : List Char := decodeFrom 0 (bytes.map (·.toNat))

/-- The bytes of a text. -/
def bytes (text : String) : List UInt8 := text.toByteArray.data.toList

/-- Whether bytes are those of some text. -/
def isText (bytes : List UInt8) : Bool := bytes.toByteArray.validateUTF8

/-- The text that bytes are read as. -/
def text (bytes : List UInt8) : String :=
  match String.fromUTF8? bytes.toByteArray with
  | some text => text
  | none => String.ofList (decode bytes)

theorem toByteArray_bytes (s : String) : (bytes s).toByteArray = s.toByteArray := by
  apply ByteArray.ext
  apply Array.toList_inj.mp
  rw [List.toList_data_toByteArray, bytes]

/-- A text is read back from its bytes. -/
theorem text_bytes (s : String) : text (bytes s) = s := by
  simp [text, toByteArray_bytes, String.fromUTF8?, String.fromUTF8, s.isValidUTF8]

end TypedForms.Text.Utf8
