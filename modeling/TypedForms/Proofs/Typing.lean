import Mathlib.Logic.Function.Basic
import TypedForms.Expr
import TypedForms.Options
import TypedForms.Proofs.Env
import TypedForms.Proofs.Ty.Order

/-! The typing rules as a relation. Types are held against each other through common upper
bounds, and a form whose parts must share one type has their least upper bound, so no rule
depends on the order in which parts are looked at. -/
namespace TypedForms

/-- Two types are different views of one: some type resolves both. -/
def Ty.Agrees (t u : Ty) : Prop := ∃ bound, t ≤ bound ∧ u ≤ bound

/-- What each name stands for. -/
abbrev Context := String → Option Ty

/-- Binds names from left to right; of two equal names the later one counts. -/
def Context.bindAll (context : Context) : List (String × Ty) → Context
  | [] => context
  | (name, t) :: rest => Context.bindAll (Function.update context name (some t)) rest

theorem Env.lookup?_extendAll {env : Env Ty} {bound : List (String × Ty)} :
    (env.extendAll bound).lookup? = Context.bindAll env.lookup? bound := by
  induction bound generalizing env with
  | nil => rfl
  | cons binding bound ih =>
    have first : (env.extend binding.1 binding.2).lookup? =
        Function.update env.lookup? binding.1 (some binding.2) := by
      funext other
      rw [lookup?_extend, Function.update_apply]
      simp only [eq_comm]
    rw [extendAll_cons, ih, first, Context.bindAll]

/-- The type of a form with one operand, by the type of the operand. -/
inductive UnaryOp.Types (o : Options) : UnaryOp → Ty → Ty → Prop where
  | car {left right : Ty} : Types o .car (.pair left right) left
  | cdr {left right : Ty} : Types o .cdr (.pair left right) right
  | null {elem : Ty} : Types o .null (.list elem) .bool
  | ref {t : Ty} : Types o .ref t (.ref t)
  | deref {elem : Ty} : Types o .deref (.ref elem) elem
  | free {elem : Ty} : Types o .free (.ref elem) .unit
  | eval {t : Ty} (dynamic : o.eval = .dynamic) (configured : o.evalType = some t) :
    Types o .eval .str t

/-- The type of a form with two operands, by the types of the operands. -/
inductive BinaryOp.Types : BinaryOp → Ty → Ty → Ty → Prop where
  | sub : Types .sub .num .num .num
  | mul : Types .mul .num .num .num
  | div : Types .div .num .num .num
  | less : Types .less .num .num .bool
  | greater : Types .greater .num .num .bool
  | equal : Types .equal .num .num .bool
  | cons {left right : Ty} : Types .cons left right (.pair left right)
  | assign {cell stored : Ty} (fits : cell.Agrees stored) : Types .assign (.ref cell) stored .unit

/-- The binder has a written type, and there is no error in it. -/
def Binder.Declares (binder : Binder) (t : Ty) : Prop := binder.type = some t ∧ t.ErrorFree

/-- The context inside a form that binds names by their written types. -/
def Context.declare (context : Context) (binders : List Binder) (types : List Ty) : Context :=
  context.bindAll ((binders.map (·.name)).zip types)

mutual

/-- The expression has the type. -/
inductive HasType (o : Options) : Context → Expr → Ty → Prop where
  | number {context token value} : HasType o context (.number token value) .num
  | string {context token value} : HasType o context (.string token value) .str
  | bool {context token value} : HasType o context (.bool token value) .bool
  | unit {context token} : HasType o context (.unit token) .unit
  | var {context token name t} (found : context name = some t) :
    HasType o context (.var token name) t
  | add {context token operands} (nums : ∀ e ∈ operands, HasType o context e .num) :
    HasType o context (.add token operands) .num
  | binary {context token op left right t u result} (leftType : HasType o context left t)
    (rightType : HasType o context right u) (types : BinaryOp.Types op t u result) :
    HasType o context (.binary token op left right) result
  | unary {context token op operand t result} (operandType : HasType o context operand t)
    (types : UnaryOp.Types o op t result) : HasType o context (.unary token op operand) result
  | branch {context token cond yes no t u result} (condType : HasType o context cond .bool)
    (yesType : HasType o context yes t) (noType : HasType o context no u)
    (least : IsLUB {t, u} result) : HasType o context (.branch token cond yes no) result
  | letIn {context token bindings bound body t} (values : Binds o context bindings bound)
    (bodyType : HasType o (context.bindAll bound) body t) :
    HasType o context (.letIn token bindings body) t
  | letrec {context token bindings types body t}
    (declared : List.Forall₂ Binder.Declares (bindings.map (·.1)) types)
    (values : Fits o (context.declare (bindings.map (·.1)) types) bindings)
    (bodyType : HasType o (context.declare (bindings.map (·.1)) types) body t) :
    HasType o context (.letrec token bindings body) t
  | lambda {context token params types body t}
    (declared : List.Forall₂ Binder.Declares params types)
    (bodyType : HasType o (context.declare params types) body t) :
    HasType o context (.lambda token params body) (.func types t)
  | call {context token operator args params types result}
    (operatorType : HasType o context operator (.func params result))
    (argTypes : HaveTypes o context args types) (fit : List.Forall₂ Ty.Agrees params types) :
    HasType o context (.call token operator args) result
  | list {context token elem elems types t} (written : ∀ a, elem = some a → a.ErrorFree)
    (elemTypes : HaveTypes o context elems types)
    (least : IsLUB ({a | elem = some a} ∪ {u | u ∈ types}) t) :
    HasType o context (.list token elem elems) (.list t)
  | read {context token t} (configured : o.readType = some t) : HasType o context (.read token) t
  | readFrom {context token source t} (sourceType : HasType o context source .str)
    (configured : o.readType = some t) : HasType o context (.readFrom token source) t

/-- The expressions have the types, one by one. -/
inductive HaveTypes (o : Options) : Context → List Expr → List Ty → Prop where
  | nil {context} : HaveTypes o context [] []
  | cons {context e es t ts} (first : HasType o context e t) (rest : HaveTypes o context es ts) :
    HaveTypes o context (e :: es) (t :: ts)

/-- Bindings that do not see each other, and what they bind: the type of the value, or the
written one where there is one and it agrees with that of the value. -/
inductive Binds (o : Options) : Context → List (Binder × Expr) → List (String × Ty) → Prop where
  | nil {context} : Binds o context [] []
  | plain {context binder value rest t bound} (bare : binder.type = none)
    (valueType : HasType o context value t) (others : Binds o context rest bound) :
    Binds o context ((binder, value) :: rest) ((binder.name, t) :: bound)
  | written {context binder value rest declared got bound} (declares : binder.Declares declared)
    (valueType : HasType o context value got) (fits : declared.Agrees got)
    (others : Binds o context rest bound) :
    Binds o context ((binder, value) :: rest) ((binder.name, declared) :: bound)

/-- Each value agrees with the written type of its name. -/
inductive Fits (o : Options) : Context → List (Binder × Expr) → Prop where
  | nil {context} : Fits o context []
  | cons {context binder value rest declared got} (declares : binder.Declares declared)
    (valueType : HasType o context value got) (fits : declared.Agrees got)
    (others : Fits o context rest) : Fits o context ((binder, value) :: rest)

end

end TypedForms
