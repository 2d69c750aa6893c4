import TypedForms.Proofs.Expr.Scope
import TypedForms.Proofs.Grammar

/-! Trees up to the places of their tokens, and with other string constants. -/
namespace TypedForms

/-- A token with its place left out. -/
def Token.unplaced (token : Token) : Token := { token with pos := nowhere.pos }

@[simp] theorem Token.unplaced_mk {kind : Token.Kind} {literal : String} {pos : Position} :
    Token.unplaced ⟨kind, literal, pos⟩ = ⟨kind, literal, nowhere.pos⟩ := rfl

theorem Token.unplaced_of_kind {token : Token} {kind : Token.Kind} (same : token.kind = kind) :
    token.unplaced = ⟨kind, token.literal, nowhere.pos⟩ := by
  rw [← same]
  rfl

def Binder.unplaced (b : Binder) : Binder := { b with token := b.token.unplaced }

namespace Expr

mutual

/-- The expression with all places left out and its string constants replaced. -/
def retext (f : String → String) : Expr → Expr
  | .absent => .absent
  | .number token value => .number token.unplaced value
  | .string token value => .string { token.unplaced with literal := f token.literal } (f value)
  | .bool token value => .bool token.unplaced value
  | .unit token => .unit token.unplaced
  | .broken token message => .broken token.unplaced message
  | .var token name => .var token.unplaced name
  | .add token operands => .add token.unplaced (retextAll f operands)
  | .binary token op left right => .binary token.unplaced op (retext f left) (retext f right)
  | .unary token op operand => .unary token.unplaced op (retext f operand)
  | .branch token cond yes no =>
    .branch token.unplaced (retext f cond) (retext f yes) (retext f no)
  | .letIn token bindings body => .letIn token.unplaced (retextBindings f bindings) (retext f body)
  | .letrec token bindings body =>
    .letrec token.unplaced (retextBindings f bindings) (retext f body)
  | .lambda token params body =>
    .lambda token.unplaced (params.map Binder.unplaced) (retext f body)
  | .call token operator args => .call token.unplaced (retext f operator) (retextAll f args)
  | .list token elem elems => .list token.unplaced elem (retextAll f elems)
  | .read token => .read token.unplaced
  | .readFrom token source => .readFrom token.unplaced (retext f source)

def retextAll (f : String → String) : List Expr → List Expr
  | [] => []
  | e :: es => retext f e :: retextAll f es

def retextBindings (f : String → String) : List (Binder × Expr) → List (Binder × Expr)
  | [] => []
  | (binder, value) :: rest => (binder.unplaced, retext f value) :: retextBindings f rest

end

mutual

/-- The string constants in an expression, each with its token. -/
def strings : Expr → List (Token × String)
  | .absent | .number .. | .bool .. | .unit _ | .broken .. | .var .. | .read _ => []
  | .string token value => [(token, value)]
  | .add _ operands => stringsAll operands
  | .binary _ _ left right => strings left ++ strings right
  | .unary _ _ operand => strings operand
  | .branch _ cond yes no => strings cond ++ strings yes ++ strings no
  | .letIn _ bindings body | .letrec _ bindings body => stringsBindings bindings ++ strings body
  | .lambda _ _ body => strings body
  | .call _ operator args => strings operator ++ stringsAll args
  | .list _ _ elems => stringsAll elems
  | .readFrom _ source => strings source

def stringsAll : List Expr → List (Token × String)
  | [] => []
  | e :: es => strings e ++ stringsAll es

def stringsBindings : List (Binder × Expr) → List (Token × String)
  | [] => []
  | (_, value) :: rest => strings value ++ stringsBindings rest

end

variable {f : String → String} {e : Expr} {es : List Expr} {bindings : List (Binder × Expr)}

/-- The text does not change the constant, neither its value nor how it is written. -/
def Keeps (f : String → String) (constant : Token × String) : Prop :=
  f constant.1.literal = constant.1.literal ∧ f constant.2 = constant.2

private theorem retextAll_eq_iff
    (each : ∀ e ∈ es, (retext f e = retext id e ↔ ∀ s ∈ strings e, Keeps f s)) :
    retextAll f es = retextAll id es ↔ ∀ s ∈ stringsAll es, Keeps f s := by
  induction es with
  | nil => simp [retextAll, stringsAll]
  | cons e es ih =>
    obtain ⟨first, rest⟩ := List.forall_mem_cons.mp each
    rw [retextAll, retextAll, List.cons.injEq, first, ih rest, stringsAll, List.forall_mem_append]

private theorem retextBindings_eq_iff
    (each : ∀ binding ∈ bindings,
      (retext f binding.2 = retext id binding.2 ↔ ∀ s ∈ strings binding.2, Keeps f s)) :
    retextBindings f bindings = retextBindings id bindings ↔
      ∀ s ∈ stringsBindings bindings, Keeps f s := by
  induction bindings with
  | nil => simp [retextBindings, stringsBindings]
  | cons binding rest ih =>
    obtain ⟨binder, value⟩ := binding
    obtain ⟨first, others⟩ := List.forall_mem_cons.mp each
    rw [retextBindings, retextBindings, List.cons.injEq, Prod.mk.injEq, first, ih others,
      stringsBindings, List.forall_mem_append]
    simp

/-- Replacing the string constants changes nothing exactly if each of them is kept. -/
theorem retext_eq_iff : retext f e = retext id e ↔ ∀ s ∈ strings e, Keeps f s := by
  induction e using Expr.induction with
  | absent | number | bool | unit | broken | var | read => simp [retext, strings]
  | string token value => simp [retext, strings, Keeps, Token.unplaced]
  | add token operands ih => simp [retext, strings, retextAll_eq_iff ih]
  | binary token op left right ihLeft ihRight =>
    simp only [retext, strings, binary.injEq, ihLeft, ihRight, List.forall_mem_append, true_and]
  | unary token op operand ih => simp [retext, strings, ih]
  | branch token cond yes no ihCond ihYes ihNo =>
    simp only [retext, strings, branch.injEq, ihCond, ihYes, ihNo, List.forall_mem_append,
      true_and, and_assoc]
  | letIn token bindings body ihBindings ihBody =>
    simp only [retext, strings, letIn.injEq, retextBindings_eq_iff ihBindings, ihBody,
      List.forall_mem_append, true_and]
  | letrec token bindings body ihBindings ihBody =>
    simp only [retext, strings, letrec.injEq, retextBindings_eq_iff ihBindings, ihBody,
      List.forall_mem_append, true_and]
  | lambda token params body ih => simp [retext, strings, ih]
  | call token operator args ihOperator ihArgs =>
    simp only [retext, strings, call.injEq, ihOperator, retextAll_eq_iff ihArgs,
      List.forall_mem_append, true_and]
  | list token elem elems ih => simp [retext, strings, retextAll_eq_iff ih]
  | readFrom token source ih => simp [retext, strings, ih]

end Expr

end TypedForms
