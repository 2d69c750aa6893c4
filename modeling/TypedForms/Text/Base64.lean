/-! Bytes written with 64 characters, four of them for three bytes. -/
namespace TypedForms.Text.Base64

def digit? (c : Char) : Option Nat :=
  if 'A' ≤ c && c ≤ 'Z' then some (c.toNat - 'A'.toNat)
  else if 'a' ≤ c && c ≤ 'z' then some (c.toNat - 'a'.toNat + 26)
  else if '0' ≤ c && c ≤ '9' then some (c.toNat - '0'.toNat + 52)
  else if c = '+' then some 62
  else if c = '/' then some 63
  else none

/-- The first `count` of the three bytes that four digits stand for. -/
def bytesOf (count a b c d : Nat) : List UInt8 :=
  ([a * 4 + b / 16, b * 16 + c / 4, c * 64 + d].map UInt8.ofNat).take count

/-- Reads groups of four characters. Only the last one may be filled up, with one or two equals
signs. -/
def groups? : List Char → Option (List UInt8)
  | [] => some []
  | [a, b, '=', '='] => do some (bytesOf 1 (← digit? a) (← digit? b) 0 0)
  | [a, b, c, '='] => do some (bytesOf 2 (← digit? a) (← digit? b) (← digit? c) 0)
  | a :: b :: c :: d :: rest => do
    let bytes := bytesOf 3 (← digit? a) (← digit? b) (← digit? c) (← digit? d)
    let others ← groups? rest
    some (bytes ++ others)
  | _ => none

/-- The bytes that a text stands for. Line ends do not count. -/
def decode? (text : List Char) : Option (List UInt8) :=
  groups? (text.filter fun c => c ≠ '\n' && c ≠ '\r')

end TypedForms.Text.Base64
