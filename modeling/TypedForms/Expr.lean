import TypedForms.Binary64.Shortest
import TypedForms.Text.Parens
import TypedForms.Text.Quoted
import TypedForms.Token
import TypedForms.Ty

/-! Programs as trees. Every node keeps the token it starts at. A tree may have gaps: a
subexpression that is absent, or a parameter without a type. -/
namespace TypedForms

inductive BinaryOp where
  | sub | mul | div | less | greater | equal | cons | assign
  deriving DecidableEq

def BinaryOp.spelling : BinaryOp → String
  | .sub => "-"
  | .mul => "*"
  | .div => "/"
  | .less => "<"
  | .greater => ">"
  | .equal => "="
  | .cons => "cons"
  | .assign => "set!"

inductive UnaryOp where
  | car | cdr | null | ref | deref | free | eval
  deriving DecidableEq

def UnaryOp.spelling : UnaryOp → String
  | .car => "car"
  | .cdr => "cdr"
  | .null => "null?"
  | .ref => "ref"
  | .deref => "deref"
  | .free => "free"
  | .eval => "eval"

/-- The forms that bind a name to a value. -/
inductive BindingForm where
  | define | letIn | letrec
  deriving DecidableEq

/-- A name that is being bound, with its written type if there is one. -/
structure Binder where
  token : Token
  name : String
  type : Option Ty

inductive Expr where
  | absent
  | number (token : Token) (value : Binary64)
  | string (token : Token) (value : String)
  | bool (token : Token) (value : Bool)
  | unit (token : Token)
  | broken (token : Token) (message : String)
  | var (token : Token) (name : String)
  | add (token : Token) (operands : List Expr)
  | binary (token : Token) (op : BinaryOp) (left right : Expr)
  | unary (token : Token) (op : UnaryOp) (operand : Expr)
  | branch (token : Token) (cond yes no : Expr)
  | letIn (token : Token) (bindings : List (Binder × Expr)) (body : Expr)
  | letrec (token : Token) (bindings : List (Binder × Expr)) (body : Expr)
  | lambda (token : Token) (params : List Binder) (body : Expr)
  | call (token : Token) (operator : Expr) (args : List Expr)
  | list (token : Token) (elem : Option Ty) (elems : List Expr)
  | read (token : Token)
  | readFrom (token : Token) (source : Expr)

instance : Inhabited Expr := ⟨.absent⟩

/-- A definition at the top level. -/
structure Decl where
  token : Token
  binder : Binder
  value : Expr

structure Program where
  decls : List Decl
  result : Expr

namespace Expr

def token : Expr → Token
  | .absent => .nowhere
  | .number t _ | .string t _ | .bool t _ | .unit t | .broken t _ | .var t _ | .add t _
  | .binary t .. | .unary t .. | .branch t .. | .letIn t .. | .letrec t .. | .lambda t ..
  | .call t .. | .list t .. | .read t | .readFrom t _ => t

def isAbsent : Expr → Bool
  | .absent => true
  | _ => false

/-- What a tree may lack. -/
inductive Gap where
  | expression
  | parameterType
  deriving DecidableEq

mutual

/-- Everything a tree lacks. -/
def gaps : Expr → List Gap
  | .absent => [.expression]
  | .number .. | .string .. | .bool .. | .unit _ | .broken .. | .var .. | .read _ => []
  | .add _ operands => gapsAll operands
  | .binary _ _ left right => gaps left ++ gaps right
  | .unary _ _ operand => gaps operand
  | .branch _ cond yes no => gaps cond ++ gaps yes ++ gaps no
  | .letIn _ bindings body | .letrec _ bindings body => gapsBindings bindings ++ gaps body
  | .lambda _ params body =>
    (params.filter (·.type.isNone)).map (fun _ => .parameterType) ++ gaps body
  | .call _ operator args => gaps operator ++ gapsAll args
  | .list _ _ elems => gapsAll elems
  | .readFrom _ source => gaps source

def gapsAll : List Expr → List Gap
  | [] => []
  | e :: es => gaps e ++ gapsAll es

def gapsBindings : List (Binder × Expr) → List Gap
  | [] => []
  | (_, value) :: rest => gaps value ++ gapsBindings rest

end

end Expr

/-- The name, and the written type after a colon. -/
def Binder.render (b : Binder) : String :=
  match b.type with
  | none => b.name
  | some type => b.name ++ " : " ++ type.render

namespace Expr

mutual

def render : Expr → String
  | .absent => ""
  | .number token value => if token.literal == "" then value.render else token.literal
  | .string _ value => Text.quote value
  | .bool _ value => if value then "#t" else "#f"
  | .unit _ => "unit"
  | .broken .. => "<error>"
  | .var _ name => name
  | .add _ operands => Text.parens ("+" :: renderAll operands)
  | .binary _ op left right => Text.parens [op.spelling, render left, render right]
  | .unary _ op operand => Text.parens [op.spelling, render operand]
  | .branch _ cond yes no => Text.parens ["if", render cond, render yes, render no]
  | .letIn _ bindings body =>
    Text.parens ["let", Text.parens (renderBindings bindings), render body]
  | .letrec _ bindings body =>
    Text.parens ["letrec", Text.parens (renderBindings bindings), render body]
  | .lambda _ params body =>
    let shown := params.map fun param => Text.parens [param.render]
    Text.parens ["lambda", Text.parens shown, render body]
  | .call _ operator args => Text.parens (render operator :: renderAll args)
  | .list _ none elems => Text.parens ("list" :: renderAll elems)
  | .list _ (some type) elems => Text.parens ("list" :: ":" :: type.render :: renderAll elems)
  | .read _ => Text.parens ["read"]
  | .readFrom _ source => Text.parens ["read", render source]

def renderAll : List Expr → List String
  | [] => []
  | e :: es => render e :: renderAll es

def renderBindings : List (Binder × Expr) → List String
  | [] => []
  | (binder, value) :: rest =>
    Text.parens [binder.render, render value] :: renderBindings rest

end

end Expr

def Decl.render (d : Decl) : String :=
  Text.parens ["define", d.binder.render, d.value.render]

namespace Program

/-- The first token of a program. -/
def token (p : Program) : Token :=
  match p.decls with
  | decl :: _ => decl.token
  | [] => p.result.token

/-- What the parts of a program lack, an absent result apart. -/
def innerGaps (p : Program) : List Expr.Gap :=
  p.decls.flatMap (·.value.gaps) ++ if p.result.isAbsent then [] else p.result.gaps

def render (p : Program) : String :=
  Text.joined "\n"
    (p.decls.map Decl.render ++ if p.result.isAbsent then [] else [p.result.render])

/-- The text of a program. Only the result may be absent; it is then left out. -/
def render? (p : Program) : Option String :=
  if p.innerGaps.isEmpty then some p.render else none

end Program

end TypedForms
