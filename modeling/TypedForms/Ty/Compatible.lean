import TypedForms.Ty

/-! Comparing types. Two types are compatible when a type exists that both can be resolved to,
and then their join is the least resolved such type. -/
namespace TypedForms.Ty

mutual

/-- Equality that does not look at the messages of errors. -/
def same : Ty → Ty → Bool
  | .unresolved, .unresolved => true
  | .num, .num => true
  | .str, .str => true
  | .bool, .bool => true
  | .unit, .unit => true
  | .error _, .error _ => true
  | .func params result, .func params' result' => sameAll params params' && same result result'
  | .pair left right, .pair left' right' => same left left' && same right right'
  | .list elem, .list elem' => same elem elem'
  | .ref elem, .ref elem' => same elem elem'
  | _, _ => false

def sameAll : List Ty → List Ty → Bool
  | [], [] => true
  | t :: ts, t' :: ts' => same t t' && sameAll ts ts'
  | _, _ => false

end

mutual

def compatible : Ty → Ty → Bool
  | .unresolved, _ => true
  | _, .unresolved => true
  | .num, .num => true
  | .str, .str => true
  | .bool, .bool => true
  | .unit, .unit => true
  | .error _, .error _ => true
  | .func params result, .func params' result' =>
    compatibleAll params params' && compatible result result'
  | .pair left right, .pair left' right' => compatible left left' && compatible right right'
  | .list elem, .list elem' => compatible elem elem'
  | .ref elem, .ref elem' => compatible elem elem'
  | _, _ => false

def compatibleAll : List Ty → List Ty → Bool
  | [], [] => true
  | t :: ts, t' :: ts' => compatible t t' && compatibleAll ts ts'
  | _, _ => false

end

mutual

/-- The join of two types. It is only meant for compatible types: where the left one is built
from parts and the right one is not built alike there is none. -/
def join? : Ty → Ty → Option Ty
  | .unresolved, t => some t
  | t, .unresolved => some t
  | .func params result, .func params' result' => do
    let params ← joinParams? params params'
    let result ← join? result result'
    some (.func params result)
  | .pair left right, .pair left' right' => do
    let left ← join? left left'
    let right ← join? right right'
    some (.pair left right)
  | .list elem, .list elem' => (join? elem elem').map .list
  | .ref elem, .ref elem' => (join? elem elem').map .ref
  | .func .., _ => none
  | .pair .., _ => none
  | .list _, _ => none
  | .ref _, _ => none
  | t, _ => some t

/-- Parameters are joined by position, as many as the left side has. -/
def joinParams? : List Ty → List Ty → Option (List Ty)
  | [], _ => some []
  | _ :: _, [] => none
  | t :: ts, t' :: ts' => do
    let joined ← join? t t'
    let rest ← joinParams? ts ts'
    some (joined :: rest)

end

end TypedForms.Ty
