import TypedForms.Text.Parens

/-! Types. Besides the types of values there are two placeholders: `unresolved`, the element
type of a list about which nothing is known yet, and `error`, the type of what has none. -/
namespace TypedForms

inductive Ty where
  | unresolved
  | num
  | str
  | bool
  | unit
  | error (message : String)
  | func (params : List Ty) (result : Ty)
  | pair (left right : Ty)
  | list (elem : Ty)
  | ref (elem : Ty)

namespace Ty

/-- The outermost constructor of a type. -/
inductive Kind where
  | unresolved | num | str | bool | unit | error | func | pair | list | ref
  deriving DecidableEq

namespace Kind

def all : List Kind :=
  [.unresolved, .num, .str, .bool, .unit, .error, .func, .pair, .list, .ref]

def name : Kind → String
  | .unresolved => "Unresolved"
  | .num => "Num"
  | .str => "Str"
  | .bool => "Bool"
  | .unit => "Unit"
  | .error => "Error"
  | .func => "Func"
  | .pair => "Pair"
  | .list => "List"
  | .ref => "Ref"

/-- The name of a kind by its place among all kinds, for any number. -/
def nameOfCode (n : Int) : String :=
  match all.find? fun kind => (all.idxOf kind : Int) == n with
  | some kind => kind.name
  | none => "Kind(" ++ toString n ++ ")"

end Kind

def kind : Ty → Kind
  | .unresolved => .unresolved
  | .num => .num
  | .str => .str
  | .bool => .bool
  | .unit => .unit
  | .error _ => .error
  | .func .. => .func
  | .pair .. => .pair
  | .list _ => .list
  | .ref _ => .ref

def isError (t : Ty) : Bool := t.kind == .error

mutual

def render : Ty → String
  | .unresolved => "?"
  | .num => "num"
  | .str => "str"
  | .bool => "bool"
  | .unit => "unit"
  | .error message => if message == "" then "error" else "error: " ++ message
  | .func params result => Text.parens (renderAll params ++ ["->", render result])
  | .pair left right => Text.parens ["pair", render left, render right]
  | .list elem => Text.parens ["list", render elem]
  | .ref elem => Text.parens ["ref", render elem]

def renderAll : List Ty → List String
  | [] => []
  | t :: ts => render t :: renderAll ts

end

mutual

/-- Whether a type of that kind occurs in the type, at any depth. -/
def contains (kind : Kind) : Ty → Bool
  | .unresolved => kind == .unresolved
  | .num => kind == .num
  | .str => kind == .str
  | .bool => kind == .bool
  | .unit => kind == .unit
  | .error _ => kind == .error
  | .func params result => kind == .func || containsAny kind params || contains kind result
  | .pair left right => kind == .pair || contains kind left || contains kind right
  | .list elem => kind == .list || contains kind elem
  | .ref elem => kind == .ref || contains kind elem

def containsAny (kind : Kind) : List Ty → Bool
  | [] => false
  | param :: params => contains kind param || containsAny kind params

end

/-- A type without any placeholder in it. -/
def isConcrete (t : Ty) : Bool := !t.contains .error && !t.contains .unresolved

/-- The message of the first type that is an error. -/
def firstError? : List Ty → Option String
  | [] => none
  | .error message :: _ => some message
  | _ :: types => firstError? types

/-- The types that have a name of their own. -/
def ofName? (name : String) : Option Ty :=
  match name with
  | "num" => some .num
  | "str" => some .str
  | "bool" => some .bool
  | "unit" => some .unit
  | _ => none

/-- Names with a meaning in types, whether or not they are types by themselves. -/
def reservedNames : List String :=
  ["num", "str", "bool", "unit", "pair", "list", "ref", "->"]

def isReservedName (name : String) : Bool := reservedNames.contains name

end Ty

end TypedForms
