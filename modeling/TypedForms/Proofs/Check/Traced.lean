import TypedForms.Proofs.Check.Rules
import TypedForms.Proofs.Diagnosed
import TypedForms.Proofs.Expr.Scope

/-! The checker with a record of its calls: which expression was checked in which environment.
Without the record it is the checker. Every expression in the tree is visited once, in the order
of the source, and one call leads to the calls for its parts. What holds of a call and of the
calls that it leads to therefore holds of all visits. -/
namespace TypedForms.Check

/-- A call of the checker. -/
structure Visit where
  env : Env Ty
  expr : Expr

/-- The result of a check, and the calls that were made for it. -/
structure Traced (α : Type) where
  checked : Checked α
  visits : List Visit

namespace Traced

variable {α β : Type}

instance : Monad Traced where
  pure a := ⟨pure a, []⟩
  bind x f := ⟨x.checked >>= fun a => (f a).checked, x.visits ++ (f x.checked.value).visits⟩

/-- A rule makes no calls. -/
def lift (x : Checked α) : Traced α := ⟨x, []⟩

def visit (env : Env Ty) (e : Expr) : Traced Unit := ⟨pure (), [⟨env, e⟩]⟩

mutual

def expr (o : Options) (env : Env Ty) (e : Expr) : Traced Ty := do
  visit env e
  match e with
  | .absent | .number .. | .string .. | .bool .. | .unit _ | .broken .. | .var .. | .read _ =>
    lift (Check.expr o env e)
  | .add _ addends => do
    let found ← operands o env "+" 1 addends
    pure (orError found .num)
  | .binary _ op left right =>
    match op.numericResult? with
    | some result => do
      let leftType ← expr o env left
      let leftType ← lift (operand 1 op.spelling left.token leftType)
      let rightType ← expr o env right
      let rightType ← lift (operand 2 op.spelling right.token rightType)
      pure (orError [leftType, rightType] result)
    | none =>
      if op = .cons then do
        let leftType ← expr o env left
        let rightType ← expr o env right
        pure (orError [leftType, rightType] (.pair leftType rightType))
      else do
        let location ← expr o env left
        let location ← lift (reference op.spelling left.token location)
        let stored ← expr o env right
        lift (assignRule right.token location stored)
  | .unary token op inner => do
    let t ← expr o env inner
    lift (unaryRule o token op inner.token t)
  | .branch token cond yes no => do
    let condType ← expr o env cond
    let yesType ← expr o env yes
    let noType ← expr o env no
    lift (branchRule token cond.token condType yesType noType)
  | .letIn _ bound body => do
    let types ← bindings o env bound
    let bodyType ← expr o (env.extendAll types) body
    pure (orError (types.map (·.2)) bodyType)
  | .letrec _ bound body => do
    let declared ← lift (annotations (bound.map (·.1)))
    let values ← recursiveBindings o (scope env (bound.map (·.1)) declared) bound
    let bodyType ← expr o (scope env (bound.map (·.1)) declared) body
    pure (orError (declared ++ values) bodyType)
  | .lambda _ params body => do
    let types ← lift (annotations params)
    let bodyType ← expr o (scope env params types) body
    pure (orError (types ++ [bodyType]) (.func types bodyType))
  | .call token operator args => do
    let callee ← expr o env operator
    let types ← exprs o env args
    lift (callRule token operator.token callee types)
  | .list token elem elems => do
    let elemType ← lift (elementType token elem)
    let types ← exprs o env elems
    lift (listRule elemType types)
  | .readFrom _ source => do
    let t ← expr o env source
    let t ← lift (require source.token t (t.kind == .str) (.source t))
    pure (orError [t] o.inputType)

def exprs (o : Options) (env : Env Ty) : List Expr → Traced (List (Token × Ty))
  | [] => pure []
  | e :: es => do
    let t ← expr o env e
    let ts ← exprs o env es
    pure ((e.token, t) :: ts)

def operands (o : Options) (env : Env Ty) (op : String) :
    (index : Nat) → List Expr → Traced (List Ty)
  | _, [] => pure []
  | index, e :: es => do
    let t ← expr o env e
    let t ← lift (operand index op e.token t)
    let ts ← operands o env op (index + 1) es
    pure (t :: ts)

def bindings (o : Options) (env : Env Ty) : List (Binder × Expr) → Traced (List (String × Ty))
  | [] => pure []
  | (binder, value) :: rest => do
    let got ← expr o env value
    let t ← lift (bindingType binder value.token got)
    let others ← bindings o env rest
    pure ((binder.name, t) :: others)

def recursiveBindings (o : Options) (inner : Env Ty) : List (Binder × Expr) → Traced (List Ty)
  | [] => pure []
  | (binder, value) :: rest => do
    let got ← expr o inner value
    let t ← lift (reconcile .letrec binder.name value.token (annotated binder).value got)
    let others ← recursiveBindings o inner rest
    pure (t :: others)

end

@[simp] theorem checked_pure {a : α} : (pure a : Traced α).checked = pure a := rfl

@[simp] theorem checked_bind {x : Traced α} {f : α → Traced β} :
    (x >>= f).checked = x.checked >>= fun a => (f a).checked := rfl

@[simp] theorem checked_lift {x : Checked α} : (lift x).checked = x := rfl

@[simp] theorem checked_visit {env : Env Ty} {e : Expr} : (visit env e).checked = pure () := rfl

@[simp] theorem visits_pure {a : α} : (pure a : Traced α).visits = [] := rfl

@[simp] theorem visits_bind {x : Traced α} {f : α → Traced β} :
    (x >>= f).visits = x.visits ++ (f x.checked.value).visits := rfl

@[simp] theorem visits_lift {x : Checked α} : (lift x).visits = [] := rfl

@[simp] theorem visits_visit {env : Env Ty} {e : Expr} : (visit env e).visits = [⟨env, e⟩] := rfl

variable {o : Options} {env : Env Ty}

/-! Without the record. -/

theorem checked_exprs {es : List Expr}
    (each : ∀ e ∈ es, (expr o env e).checked = Check.expr o env e) :
    (exprs o env es).checked = Check.exprs o env es := by
  induction es with
  | nil => rfl
  | cons e es ih =>
    obtain ⟨first, rest⟩ := List.forall_mem_cons.mp each
    simp only [exprs, checked_bind, checked_pure, first, ih rest, exprs_cons]

theorem checked_operands {op : String} {index : Nat} {es : List Expr}
    (each : ∀ e ∈ es, (expr o env e).checked = Check.expr o env e) :
    (operands o env op index es).checked = Check.operands o env op index es := by
  induction es generalizing index with
  | nil => rfl
  | cons e es ih =>
    obtain ⟨first, rest⟩ := List.forall_mem_cons.mp each
    simp only [operands, checked_bind, checked_lift, checked_pure, first, ih rest, operands_cons,
      bind_assoc]

theorem checked_bindings {bound : List (Binder × Expr)}
    (each : ∀ binding ∈ bound, (expr o env binding.2).checked = Check.expr o env binding.2) :
    (bindings o env bound).checked = Check.bindings o env bound := by
  induction bound with
  | nil => rfl
  | cons binding rest ih =>
    obtain ⟨binder, value⟩ := binding
    obtain ⟨first, others⟩ := List.forall_mem_cons.mp each
    simp only [bindings, checked_bind, checked_lift, checked_pure, first, ih others, bindings_cons,
      bind_assoc]

theorem checked_recursiveBindings {bound : List (Binder × Expr)}
    (each : ∀ binding ∈ bound, (expr o env binding.2).checked = Check.expr o env binding.2) :
    (recursiveBindings o env bound).checked = Check.recursiveBindings o env bound := by
  induction bound with
  | nil => rfl
  | cons binding rest ih =>
    obtain ⟨binder, value⟩ := binding
    obtain ⟨first, others⟩ := List.forall_mem_cons.mp each
    simp only [recursiveBindings, checked_bind, checked_lift, checked_pure, first, ih others,
      recursiveBindings_cons, bind_assoc]

/-- Without the record this is the checker. -/
@[simp] theorem checked_expr (e : Expr) : (expr o env e).checked = Check.expr o env e := by
  induction e using Expr.induction generalizing env with
  | absent | number | string | bool | unit | broken | var | read => rfl
  | add token addends ih =>
    simp [expr, expr_add, checked_operands fun e member => ih e member]
  | binary token op left right ihLeft ihRight =>
    cases op with
    | cons => simp [expr, expr_cons, BinaryOp.numericResult?, ihLeft, ihRight]
    | assign => simp [expr, expr_assign, BinaryOp.numericResult?, ihLeft, ihRight]; rfl
    | sub | mul | div | less | greater | equal =>
      rw [expr_numeric rfl]
      simp [expr, BinaryOp.numericResult?, ihLeft, ihRight]
  | unary token op operand ih => simp [expr, expr_unary, ih]
  | branch token cond yes no ihCond ihYes ihNo =>
    simp [expr, expr_branch, ihCond, ihYes, ihNo]
  | letIn token bound body ihBound ihBody =>
    simp [expr, expr_letIn, checked_bindings fun binding member => ihBound binding member, ihBody]
  | letrec token bound body ihBound ihBody =>
    have values := fun inner : Env Ty =>
      checked_recursiveBindings fun binding member => @ihBound binding member inner
    simp [expr, expr_letrec, values, ihBody]
  | lambda token params body ih => simp [expr, expr_lambda, ih]
  | call token operator args ihOperator ihArgs =>
    simp [expr, expr_call, ihOperator, checked_exprs fun e member => ihArgs e member]
  | list token elem elems ih =>
    simp [expr, expr_list, checked_exprs fun e member => ih e member]
  | readFrom token source ih => simp [expr, expr_readFrom, ih]

/-! The calls. -/

/-- The calls that the check of an expression leads to at once. The parts of a form are checked
where the form is, apart from those that see the names it binds. -/
def parts (o : Options) (env : Env Ty) : Expr → List Visit
  | .absent | .number .. | .string .. | .bool .. | .unit _ | .broken .. | .var .. | .read _ => []
  | .add _ es | .list _ _ es => es.map (⟨env, ·⟩)
  | .binary _ _ left right => [⟨env, left⟩, ⟨env, right⟩]
  | .unary _ _ operand | .readFrom _ operand => [⟨env, operand⟩]
  | .branch _ cond yes no => [⟨env, cond⟩, ⟨env, yes⟩, ⟨env, no⟩]
  | .letIn _ bound body =>
    bound.map (⟨env, ·.2⟩) ++ [⟨env.extendAll (Check.bindings o env bound).value, body⟩]
  | .letrec _ bound body =>
    let inner := scope env (bound.map (·.1)) (annotations (bound.map (·.1))).value
    bound.map (⟨inner, ·.2⟩) ++ [⟨inner, body⟩]
  | .lambda _ params body => [⟨scope env params (annotations params).value, body⟩]
  | .call _ operator args => ⟨env, operator⟩ :: args.map (⟨env, ·⟩)

theorem visits_exprs {es : List Expr} :
    (exprs o env es).visits = es.flatMap fun e => (expr o env e).visits := by
  induction es with
  | nil => rfl
  | cons e es ih => simp [exprs, ih]

theorem visits_operands {op : String} {index : Nat} {es : List Expr} :
    (operands o env op index es).visits = es.flatMap fun e => (expr o env e).visits := by
  induction es generalizing index with
  | nil => rfl
  | cons e es ih => simp [operands, ih]

theorem visits_bindings {bound : List (Binder × Expr)} :
    (bindings o env bound).visits = bound.flatMap fun binding => (expr o env binding.2).visits := by
  induction bound with
  | nil => rfl
  | cons binding rest ih => simp [bindings, ih]

theorem visits_recursiveBindings {bound : List (Binder × Expr)} :
    (recursiveBindings o env bound).visits =
      bound.flatMap fun binding => (expr o env binding.2).visits := by
  induction bound with
  | nil => rfl
  | cons binding rest ih => simp [recursiveBindings, ih]

/-- A call is followed by the calls for the parts, one after the other. -/
theorem visits_expr (e : Expr) : (expr o env e).visits =
    ⟨env, e⟩ :: (parts o env e).flatMap fun part => (expr o part.env part.expr).visits := by
  cases e with
  | absent | number | string | bool | unit | broken | var | read => rfl
  | add token addends => simp [expr, parts, visits_operands, List.flatMap_map]
  | binary token op left right => cases op <;> simp [expr, parts, BinaryOp.numericResult?]
  | unary token op operand => simp [expr, parts]
  | branch token cond yes no => simp [expr, parts]
  | letIn token bound body =>
    simp [expr, parts, visits_bindings, List.flatMap_map, checked_bindings]
  | letrec token bound body => simp [expr, parts, visits_recursiveBindings, List.flatMap_map]
  | lambda token params body => simp [expr, parts]
  | call token operator args => simp [expr, parts, visits_exprs, List.flatMap_map]
  | list token elem elems => simp [expr, parts, visits_exprs, List.flatMap_map]
  | readFrom token source => simp [expr, parts]

/-- Induction over expressions by the calls that they lead to. -/
theorem induction_parts {motive : Expr → Prop}
    (step : ∀ e, (∀ env, ∀ part ∈ parts o env e, motive part.expr) → motive e) (e : Expr) :
    motive e := by
  induction e using Expr.induction with
  | absent | number | string | bool | unit | broken | var | read =>
    exact step _ (by simp [parts])
  | add token addends ih => exact step _ (by simpa [parts] using fun _ => ih)
  | binary token op left right ihLeft ihRight =>
    exact step _ (by simp [parts, ihLeft, ihRight])
  | unary token op operand ih => exact step _ (by simp [parts, ih])
  | branch token cond yes no ihCond ihYes ihNo =>
    exact step _ (by simp [parts, ihCond, ihYes, ihNo])
  | letIn token bound body ihBound ihBody | letrec token bound body ihBound ihBody =>
    refine step _ fun env => ?_
    rw [parts, List.forall_mem_append, List.forall_mem_map]
    exact ⟨ihBound, by simpa using ihBody⟩
  | lambda token params body ih => exact step _ (by simp [parts, ih])
  | call token operator args ihOperator ihArgs =>
    exact step _ (by simpa [parts, ihOperator] using fun _ => ihArgs)
  | list token elem elems ih => exact step _ (by simpa [parts] using fun _ => ih)
  | readFrom token source ih => exact step _ (by simp [parts, ih])

theorem subexprs_eq_parts (e : Expr) :
    e.subexprs = e :: (parts o env e).flatMap (·.expr.subexprs) := by
  cases e <;>
    simp [Expr.subexprs, parts, Expr.subexprsAll_eq, Expr.subexprsValues_eq, List.flatMap_map]

/-- Every expression of the tree is checked once, in the order of the source. -/
theorem exprs_visits (e : Expr) : (expr o env e).visits.map (·.expr) = e.subexprs := by
  induction e using induction_parts (o := o) generalizing env with
  | step e ih =>
    rw [visits_expr, @subexprs_eq_parts o env, List.map_cons, List.map_flatMap,
      List.flatMap_congr fun part member => ih env part member]

/-- What holds of a call, and passes from a call to those that it leads to at once, holds of all
that are made. -/
theorem forall_visits {holds : Env Ty → Expr → Prop}
    (step : ∀ env e, holds env e → ∀ part ∈ parts o env e, holds part.env part.expr) {e : Expr}
    (start : holds env e) : ∀ visit ∈ (expr o env e).visits, holds visit.env visit.expr := by
  induction e using induction_parts (o := o) generalizing env with
  | step e ih =>
    rw [visits_expr, List.forall_mem_cons, List.forall_mem_flatMap]
    exact ⟨start, fun part member => ih env part member (step env e start part member)⟩

end Traced

end TypedForms.Check
