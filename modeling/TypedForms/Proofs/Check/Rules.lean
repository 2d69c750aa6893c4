import TypedForms.Check

/-! The checker form by form. Each equation says which parts are checked, in which order, and
which rule is then applied to their types. -/
namespace TypedForms

/-- The type of a form that takes two numbers. -/
def BinaryOp.numericResult? : BinaryOp → Option Ty
  | .sub | .mul | .div => some .num
  | .less | .greater | .equal => some .bool
  | .cons | .assign => none

namespace Check

variable {o : Options} {env : Env Ty} {token : Token}

/-- The rule for a form with one operand, from the type of the operand. -/
def unaryRule (o : Options) (form : Token) (op : UnaryOp) (anchor : Token) (t : Ty) :
    Checked Ty :=
  match op with
  | .car => do
    match ← require anchor t (t.kind == .pair) (.notPair op.spelling t) with
    | .pair left _ => pure left
    | t => pure t
  | .cdr => do
    match ← require anchor t (t.kind == .pair) (.notPair op.spelling t) with
    | .pair _ right => pure right
    | t => pure t
  | .null => do
    let t ← require anchor t (t.kind == .list) (.notList t)
    pure (orError [t] .bool)
  | .ref => pure (orError [t] (.ref t))
  | .deref => do
    match ← reference op.spelling anchor t with
    | .ref elem => pure elem
    | t => pure t
  | .free => do
    let t ← reference op.spelling anchor t
    pure (orError [t] .unit)
  | .eval => evalRule o form anchor t

theorem expr_unary {op : UnaryOp} {operand : Expr} :
    expr o env (.unary token op operand) =
      expr o env operand >>= unaryRule o token op operand.token := by
  cases op <;> rfl

theorem expr_numeric {op : BinaryOp} {result : Ty} {left right : Expr}
    (numeric : op.numericResult? = some result) :
    expr o env (.binary token op left right) = (do
      let leftType ← expr o env left >>= operand 1 op.spelling left.token
      let rightType ← expr o env right >>= operand 2 op.spelling right.token
      pure (orError [leftType, rightType] result)) := by
  cases op <;> cases numeric <;> simp only [expr, bind_assoc]

theorem expr_cons {left right : Expr} :
    expr o env (.binary token .cons left right) = (do
      let leftType ← expr o env left
      let rightType ← expr o env right
      pure (orError [leftType, rightType] (.pair leftType rightType))) := rfl

theorem expr_assign {left right : Expr} :
    expr o env (.binary token .assign left right) = (do
      let location ← expr o env left >>= reference "set!" left.token
      let stored ← expr o env right
      assignRule right.token location stored) := by
  simp only [expr, bind_assoc]
  rfl

theorem expr_var {name : String} :
    expr o env (.var token name) =
      match env.lookup? name with
      | some t => pure t
      | none => report token (.unbound name) := rfl

theorem expr_add {addends : List Expr} :
    expr o env (.add token addends) = (do
      let found ← operands o env "+" 1 addends
      pure (orError found .num)) := rfl

theorem expr_branch {cond yes no : Expr} :
    expr o env (.branch token cond yes no) = (do
      let condType ← expr o env cond
      let yesType ← expr o env yes
      let noType ← expr o env no
      branchRule token cond.token condType yesType noType) := rfl

theorem expr_letIn {bound : List (Binder × Expr)} {body : Expr} :
    expr o env (.letIn token bound body) = (do
      let types ← bindings o env bound
      let bodyType ← expr o (env.extendAll types) body
      pure (orError (types.map (·.2)) bodyType)) := rfl

/-- The written types of names that must have one. -/
def annotations (binders : List Binder) : Checked (List Ty) :=
  Diagnosed.sequence (binders.map annotated)

/-- The environment where binders stand for types. -/
def scope (env : Env Ty) (binders : List Binder) (types : List Ty) : Env Ty :=
  env.extendAll ((binders.map (·.name)).zip types)

theorem expr_letrec {bound : List (Binder × Expr)} {body : Expr} :
    expr o env (.letrec token bound body) = (do
      let declared ← annotations (bound.map (·.1))
      let values ← recursiveBindings o (scope env (bound.map (·.1)) declared) bound
      let bodyType ← expr o (scope env (bound.map (·.1)) declared) body
      pure (orError (declared ++ values) bodyType)) := by
  simp only [expr, annotations, scope, List.map_map]
  rfl

theorem expr_lambda {params : List Binder} {body : Expr} :
    expr o env (.lambda token params body) = (do
      let types ← annotations params
      let bodyType ← expr o (scope env params types) body
      pure (orError (types ++ [bodyType]) (.func types bodyType))) := rfl

theorem expr_call {operator : Expr} {args : List Expr} :
    expr o env (.call token operator args) = (do
      let callee ← expr o env operator
      let types ← exprs o env args
      callRule token operator.token callee types) := rfl

/-- The type that the elements of a list are held against from the start. -/
def elementType (token : Token) : Option Ty → Checked Ty
  | none => pure .unresolved
  | some t => written token t

theorem expr_list {elem : Option Ty} {elems : List Expr} :
    expr o env (.list token elem elems) = (do
      let elemType ← elementType token elem
      let types ← exprs o env elems
      listRule elemType types) := by
  cases elem <;> rfl

theorem expr_readFrom {source : Expr} :
    expr o env (.readFrom token source) = (do
      let t ← expr o env source >>= fun t => require source.token t (t.kind == .str) (.source t)
      pure (orError [t] o.inputType)) := by
  simp only [expr, bind_assoc]

/-- The type of one binding of a `let`, from the type of its value. -/
def bindingType (binder : Binder) (value : Token) (got : Ty) : Checked Ty :=
  match binder.type with
  | none => pure got
  | some _ => do
    let declared ← annotated binder
    reconcile .letIn binder.name value declared got

theorem bindings_cons {binder : Binder} {value : Expr} {rest : List (Binder × Expr)} :
    bindings o env ((binder, value) :: rest) = (do
      let t ← expr o env value >>= bindingType binder value.token
      let others ← bindings o env rest
      pure ((binder.name, t) :: others)) := by
  obtain ⟨_, _, type⟩ := binder
  cases type <;> simp only [bindings, bindingType, bind_assoc, pure_bind]

/-- What one binding of a `let` comes to. -/
def boundType (o : Options) (env : Env Ty) (binding : Binder × Expr) : Checked (String × Ty) := do
  let t ← expr o env binding.2 >>= bindingType binding.1 binding.2.token
  pure (binding.1.name, t)

theorem bindings_eq_sequence {bound : List (Binder × Expr)} :
    bindings o env bound = Diagnosed.sequence (bound.map (boundType o env)) := by
  induction bound with
  | nil => rfl
  | cons binding rest ih =>
    obtain ⟨binder, value⟩ := binding
    simp only [bindings_cons, ih, List.map_cons, Diagnosed.sequence, boundType, bind_assoc,
      pure_bind]

theorem recursiveBindings_cons {binder : Binder} {value : Expr}
    {rest : List (Binder × Expr)} :
    recursiveBindings o env ((binder, value) :: rest) = (do
      let t ← expr o env value >>=
        reconcile .letrec binder.name value.token (annotated binder).value
      let others ← recursiveBindings o env rest
      pure (t :: others)) := by
  simp only [recursiveBindings, bind_assoc]

/-- What the value of one binding of a `letrec` comes to. -/
def recursiveType (o : Options) (inner : Env Ty) (binding : Binder × Expr) : Checked Ty :=
  expr o inner binding.2 >>=
    reconcile .letrec binding.1.name binding.2.token (annotated binding.1).value

theorem recursiveBindings_eq_sequence {bound : List (Binder × Expr)} :
    recursiveBindings o env bound = Diagnosed.sequence (bound.map (recursiveType o env)) := by
  induction bound with
  | nil => rfl
  | cons binding rest ih =>
    obtain ⟨binder, value⟩ := binding
    rw [recursiveBindings_cons, ih]
    rfl

theorem exprs_cons {e : Expr} {es : List Expr} :
    exprs o env (e :: es) = (do
      let t ← expr o env e
      let ts ← exprs o env es
      pure ((e.token, t) :: ts)) := rfl

theorem operands_cons {op : String} {index : Nat} {e : Expr} {es : List Expr} :
    operands o env op index (e :: es) = (do
      let t ← expr o env e >>= operand index op e.token
      let ts ← operands o env op (index + 1) es
      pure (t :: ts)) := by
  simp only [operands, bind_assoc]

end Check

end TypedForms
