import TypedForms.Env
import TypedForms.Options
import TypedForms.Ty.Compatible
import TypedForms.TypeError

/-! Checking types. The rule for a form looks at the form, the types of its parts and the
environment only. What is ill typed has an error type, its problem is noted once, and the
expressions around it pass the error on without a note. All parts are checked in any case. -/
namespace TypedForms

abbrev Checked (α : Type) := Diagnosed TypeError α

namespace Check

/-- Notes a problem; its message becomes the type of the expression. -/
def report (anchor : Token) (cause : TypeError) : Checked Ty := do
  Diagnosed.note anchor cause
  pure (.error cause.message)

/-- Passes a type on if it is an error or has what the rule asks for. -/
def require (anchor : Token) (t : Ty) (fits : Bool) (cause : TypeError) : Checked Ty :=
  if t.isError || fits then pure t else report anchor cause

/-- The first error among the types of the parts, or else the given type. -/
def orError (parts : List Ty) (t : Ty) : Ty :=
  match Ty.firstError? parts with
  | some message => .error message
  | none => t

/-- A written type must not contain an error. -/
def written (anchor : Token) (t : Ty) : Checked Ty :=
  if t.contains .error then report anchor (.invalidType t) else pure t

/-- The type of a name that must have a written one. -/
def annotated (b : Binder) : Checked Ty :=
  match b.type with
  | none => report b.token (.untyped b.name)
  | some t => written b.token t

/-- The type of a binding with a written type: the written one, if the value fits it. Where two
functions differ in their results only, the message is about the results. -/
def reconcile (form : BindingForm) (name : String) (value : Token) (declared got : Ty) :
    Checked Ty :=
  if declared.isError then pure declared
  else if got.isError then pure got
  else if declared.compatible got then pure declared
  else
    match declared, got with
    | .func params result, .func params' result' =>
      if params.length = params'.length &&
          (Ty.func params result').compatible (.func params' result') then
        report value (.declaredResult form name result result')
      else report value (.declared form name declared got)
    | _, _ => report value (.declared form name declared got)

def operand (index : Nat) (op : String) (anchor : Token) (t : Ty) : Checked Ty :=
  require anchor t (t.kind == .num) (.operand index op t)

def reference (op : String) (anchor : Token) (t : Ty) : Checked Ty :=
  require anchor t (t.kind == .ref) (.notReference op t)

/-- The join of compatible types. -/
def joined (left right : Ty) : Checked Ty :=
  match left.join? right with
  | some t => pure t
  | none => report .nowhere (.noJoin left right)

/-- The condition must be a `bool`, and the branches must have a common type. -/
def branchRule (form condition : Token) (cond yes no : Ty) : Checked Ty := do
  let cond ← require condition cond (cond.kind == .bool) (.condition cond)
  match Ty.firstError? [yes, no] with
  | some message => pure (orError [cond] (.error message))
  | none =>
    if yes.compatible no then
      if cond.isError then pure cond else joined yes no
    else do
      let clash ← report form (.branches yes no)
      pure (orError [cond] clash)

/-- Arguments are matched to parameters by position. The result is, for each argument, its type
or the error it gives rise to. -/
def arguments : (index : Nat) → (params : List Ty) → (args : List (Token × Ty)) →
    Checked (List Ty)
  | index, param :: params, (anchor, arg) :: args => do
    let found ← require anchor arg (param.compatible arg) (.argument index param arg)
    let others ← arguments (index + 1) params args
    pure (found :: others)
  | _, _, _ => pure []

def callRule (form operator : Token) (callee : Ty) (args : List (Token × Ty)) : Checked Ty :=
  match callee with
  | .error message => pure (.error message)
  | .func params result =>
    if args.length = params.length then do
      let found ← arguments 1 params args
      pure (orError (result :: found) result)
    else report form (.argumentCount callee params.length args.length)
  | _ => report operator (.notFunction callee)

/-- Elements must share one type; it starts as `elem` and is resolved further by each element
that fits. The result is that type, after the errors found on the way. -/
def elements : (index : Nat) → (elem : Ty) → (types : List (Token × Ty)) →
    Checked (List Ty × Ty)
  | _, elem, [] => pure ([], elem)
  | index, elem, (anchor, t) :: types => do
    if t.isError || elem.isError then
      let (errors, final) ← elements (index + 1) elem types
      pure (t :: errors, final)
    else if elem.compatible t then
      let elem ← joined elem t
      elements (index + 1) elem types
    else
      let clash ← report anchor (.element index elem t)
      let (errors, final) ← elements (index + 1) elem types
      pure (clash :: errors, final)

def listRule (elem : Ty) (types : List (Token × Ty)) : Checked Ty := do
  let (errors, final) ← elements 1 elem types
  pure (orError (elem :: errors) (.list final))

/-- The stored value must fit the cell. A location that is no reference is an error here. -/
def assignRule (value : Token) (location stored : Ty) : Checked Ty :=
  match location with
  | .ref cell =>
    if stored.isError then pure stored
    else if cell.compatible stored then pure .unit
    else report value (.cell cell stored)
  | t => pure t

def evalRule (o : Options) (form code : Token) (t : Ty) : Checked Ty :=
  if t.isError then pure t
  else
    match o.eval with
    | .dynamic => do
      let t ← require code t (t.kind == .str) (.code t)
      pure (orError [t] o.evalResult)
    | _ => report form .untypable

mutual

/-- The type of an expression. -/
def expr (o : Options) (env : Env Ty) : Expr → Checked Ty
  | .absent => report .nowhere .absentExpression
  | .number .. => pure .num
  | .string .. => pure .str
  | .bool .. => pure .bool
  | .unit _ => pure .unit
  | .broken token message => report token (.broken message)
  | .var token name =>
    match env.lookup? name with
    | some t => pure t
    | none => report token (.unbound name)
  | .add _ addends => do
    let found ← operands o env "+" 1 addends
    pure (orError found .num)
  | .binary _ op left right =>
    match op with
    | .cons => do
      let leftType ← expr o env left
      let rightType ← expr o env right
      pure (orError [leftType, rightType] (.pair leftType rightType))
    | .assign => do
      let location ← expr o env left
      let location ← reference op.spelling left.token location
      let stored ← expr o env right
      assignRule right.token location stored
    | .sub | .mul | .div => do
      let leftType ← expr o env left
      let leftType ← operand 1 op.spelling left.token leftType
      let rightType ← expr o env right
      let rightType ← operand 2 op.spelling right.token rightType
      pure (orError [leftType, rightType] .num)
    | .less | .greater | .equal => do
      let leftType ← expr o env left
      let leftType ← operand 1 op.spelling left.token leftType
      let rightType ← expr o env right
      let rightType ← operand 2 op.spelling right.token rightType
      pure (orError [leftType, rightType] .bool)
  | .unary token op inner => do
    let t ← expr o env inner
    match op with
    | .car => do
      match ← require inner.token t (t.kind == .pair) (.notPair op.spelling t) with
      | .pair left _ => pure left
      | t => pure t
    | .cdr => do
      match ← require inner.token t (t.kind == .pair) (.notPair op.spelling t) with
      | .pair _ right => pure right
      | t => pure t
    | .null => do
      let t ← require inner.token t (t.kind == .list) (.notList t)
      pure (orError [t] .bool)
    | .ref => pure (orError [t] (.ref t))
    | .deref => do
      match ← reference op.spelling inner.token t with
      | .ref elem => pure elem
      | t => pure t
    | .free => do
      let t ← reference op.spelling inner.token t
      pure (orError [t] .unit)
    | .eval => evalRule o token inner.token t
  | .branch token cond yes no => do
    let condType ← expr o env cond
    let yesType ← expr o env yes
    let noType ← expr o env no
    branchRule token cond.token condType yesType noType
  | .letIn _ bound body => do
    let types ← bindings o env bound
    let bodyType ← expr o (env.extendAll types) body
    pure (orError (types.map (·.2)) bodyType)
  | .letrec _ bound body => do
    let declared ← Diagnosed.sequence (bound.map fun binding => annotated binding.1)
    let inner := env.extendAll ((bound.map (·.1.name)).zip declared)
    let values ← recursiveBindings o inner bound
    let bodyType ← expr o inner body
    pure (orError (declared ++ values) bodyType)
  | .lambda _ params body => do
    let types ← Diagnosed.sequence (params.map annotated)
    let bodyType ← expr o (env.extendAll ((params.map (·.name)).zip types)) body
    pure (orError (types ++ [bodyType]) (.func types bodyType))
  | .call token operator args => do
    let callee ← expr o env operator
    let types ← exprs o env args
    callRule token operator.token callee types
  | .list token elem elems => do
    let elemType ← match elem with
      | none => pure .unresolved
      | some t => written token t
    let types ← exprs o env elems
    listRule elemType types
  | .read _ => pure o.inputType
  | .readFrom _ source => do
    let t ← expr o env source
    let t ← require source.token t (t.kind == .str) (.source t)
    pure (orError [t] o.inputType)

/-- The types of expressions, with the tokens that problems with them are anchored at. -/
def exprs (o : Options) (env : Env Ty) : List Expr → Checked (List (Token × Ty))
  | [] => pure []
  | e :: es => do
    let t ← expr o env e
    let ts ← exprs o env es
    pure ((e.token, t) :: ts)

/-- Operands of an arithmetic form, each required to be a `num` before the next is checked. -/
def operands (o : Options) (env : Env Ty) (op : String) :
    (index : Nat) → List Expr → Checked (List Ty)
  | _, [] => pure []
  | index, e :: es => do
    let t ← expr o env e
    let t ← operand index op e.token t
    let ts ← operands o env op (index + 1) es
    pure (t :: ts)

/-- Bindings that do not see each other: every value is checked in the same environment. -/
def bindings (o : Options) (env : Env Ty) :
    List (Binder × Expr) → Checked (List (String × Ty))
  | [] => pure []
  | (binder, value) :: rest => do
    let got ← expr o env value
    let t ← match binder.type with
      | none => pure got
      | some _ => do
        let declared ← annotated binder
        reconcile .letIn binder.name value.token declared got
    let others ← bindings o env rest
    pure ((binder.name, t) :: others)

/-- The values of bindings that see each other by their declared types. -/
def recursiveBindings (o : Options) (inner : Env Ty) :
    List (Binder × Expr) → Checked (List Ty)
  | [] => pure []
  | (binder, value) :: rest => do
    let got ← expr o inner value
    let t ← reconcile .letrec binder.name value.token (annotated binder).value got
    let others ← recursiveBindings o inner rest
    pure (t :: others)

end

/-- The type of a definition, and the environment after it. With a written type the name is in
scope in its own value, and keeps that type whatever the value turns out to be. -/
def decl (o : Options) (env : Env Ty) (d : Decl) : Checked (Ty × Env Ty) :=
  match d.binder.type with
  | none => do
    let t ← expr o env d.value
    pure (t, env.extend d.binder.name t)
  | some _ => do
    let declared ← annotated d.binder
    let inner := env.extend d.binder.name declared
    let got ← expr o inner d.value
    let t ← reconcile .define d.binder.name d.value.token declared got
    pure (t, inner)

/-- The environment after definitions, each of which sees those before it. -/
def decls (o : Options) : Env Ty → List Decl → Checked (Env Ty)
  | env, [] => pure env
  | env, d :: ds => do
    let (_, env) ← decl o env d
    decls o env ds

/-- The type of a program, and the environment of its definitions. -/
def program (o : Options) (env : Env Ty) (p : Program) : Checked (Ty × Env Ty) := do
  let env ← decls o env p.decls
  let t ← expr o env p.result
  pure (t, env)

/-- The texts of problems, one to a line. -/
def joinedText (notes : List (Diagnostic TypeError)) : String :=
  Text.joined "\n" (notes.map Diagnostic.text)

/-- Why a program is not well typed. -/
structure Failure where
  text : String
  categories : List TypeError.Category

/-- The failure of a check. An error type without any problem noted is a mismatch. -/
def failure? (t : Ty) (notes : List (Diagnostic TypeError)) : Option Failure :=
  if !notes.isEmpty then some ⟨joinedText notes, notes.map (·.cause.category)⟩
  else if t.isError then some ⟨"type mismatch: " ++ t.render, [.mismatch]⟩
  else none

/-- The first lapse among problems, if there is one. -/
def lapse? (notes : List (Diagnostic TypeError)) : Option TypeError :=
  (notes.map (·.cause)).find? (·.category == .lapse)

end Check

end TypedForms
