import TypedForms.Proofs.Check.Absorption
import TypedForms.Proofs.Moved

/-! Checking does not depend on where tokens stand: a tree whose tokens have been moved has the same
type, and the same problems at the new places. A tree with a part missing is left out, because its
problem is not anchored in the tree. -/
namespace TypedForms

open Diagnosed (Moves)

namespace Expr

variable {f : Token → Position} {e : Expr} {es : List Expr} {bound : List (Binder × Expr)}

theorem gapless_of_gaps (whole : e.gaps = []) : e.Gapless := by
  simp [Gapless, whole]

theorem token_put (gapless : e.Gapless) : (e.put f).token = e.token.put f := by
  cases e with
  | absent => simp [Gapless, gaps] at gapless
  | _ => rfl

theorem putAll_eq : putAll f es = es.map (put f) := by
  induction es with
  | nil => rfl
  | cons e es ih => rw [putAll, ih, List.map_cons]

theorem binders_putBindings :
    (putBindings f bound).map (·.1) = (bound.map (·.1)).map (Binder.put f) := by
  induction bound with
  | nil => rfl
  | cons binding bound ih =>
    obtain ⟨binder, value⟩ := binding
    rw [putBindings, List.map_cons, ih, List.map_cons, List.map_cons]

/-- No expression is absent from any of the trees. -/
theorem gapless_of_mem (gapless : .expression ∉ gapsAll es) : ∀ e ∈ es, e.Gapless := by
  induction es with
  | nil => simp
  | cons e es ih =>
    rw [gapsAll, List.mem_append, not_or] at gapless
    exact List.forall_mem_cons.mpr ⟨gapless.1, ih gapless.2⟩

theorem gapless_of_mem_bindings (gapless : .expression ∉ gapsBindings bound) :
    ∀ binding ∈ bound, binding.2.Gapless := by
  induction bound with
  | nil => simp
  | cons binding bound ih =>
    rw [gapsBindings, List.mem_append, not_or] at gapless
    exact List.forall_mem_cons.mpr ⟨gapless.1, ih gapless.2⟩

end Expr

namespace Check

/-! Rules. -/

section

variable {f : Token → Position} {o : Options} {anchor form : Token} {t : Ty} {cause : TypeError}

theorem moves_report : Moves f id (report anchor cause) (report (anchor.put f) cause) :=
  .noteThen (.pure rfl)

theorem moves_require {fits : Bool} :
    Moves f id (require anchor t fits cause) (require (anchor.put f) t fits cause) := by
  unfold require
  split
  · exact .pure rfl
  · exact moves_report

theorem moves_written : Moves f id (written anchor t) (written (anchor.put f) t) := by
  unfold written
  split
  · exact moves_report
  · exact .pure rfl

theorem moves_annotated {b : Binder} : Moves f id (annotated b) (annotated (b.put f)) := by
  obtain ⟨token, name, type⟩ := b
  cases type with
  | none => exact moves_report
  | some t => exact moves_written

theorem moves_annotations {binders : List Binder} :
    Moves f id (annotations binders) (annotations (binders.map (Binder.put f))) := by
  have each : List.Forall₂ (Moves f id) (binders.map annotated)
      ((binders.map (Binder.put f)).map annotated) := by
    rw [List.map_map, List.forall₂_map_left_iff, List.forall₂_map_right_iff]
    exact List.forall₂_same.mpr fun binder _ => moves_annotated
  have moved := Moves.sequence each
  rwa [List.map_id_fun] at moved

theorem scope_put {env : Env Ty} {binders : List Binder} {types : List Ty} :
    scope env (binders.map (Binder.put f)) types = scope env binders types := by
  rw [scope, List.map_map]
  rfl

theorem moves_reconcile {kind : BindingForm} {name : String} {declared got : Ty} :
    Moves f id (reconcile kind name anchor declared got)
      (reconcile kind name (anchor.put f) declared got) := by
  unfold reconcile
  split
  · exact .pure rfl
  split
  · exact .pure rfl
  split
  · exact .pure rfl
  split
  · split <;> exact moves_report
  · exact moves_report

theorem moves_branchRule {condition : Token} {cond yes no : Ty} :
    Moves f id (branchRule form condition cond yes no)
      (branchRule (form.put f) (condition.put f) cond yes no) := by
  refine moves_require.bind ?_
  dsimp only [id]
  split
  next => exact .pure rfl
  next =>
    split
    next compatible =>
      obtain ⟨j, joined, _⟩ := exists_joined compatible
      rw [joined]
      split <;> exact .pure rfl
    next => exact moves_report.bind (.pure rfl)

/-- The type of a part, and the token that problems with it are anchored at. -/
def putTyped (f : Token → Position) (part : Token × Ty) : Token × Ty := (part.1.put f, part.2)

theorem moves_arguments {index : Nat} {params : List Ty} {args : List (Token × Ty)} :
    Moves f id (arguments index params args)
      (arguments index params (args.map (putTyped f))) := by
  induction params generalizing index args with
  | nil => cases args <;> exact .pure rfl
  | cons param params ih =>
    cases args with
    | nil => exact .pure rfl
    | cons arg args => exact moves_require.bind (ih.bind (.pure rfl))

theorem moves_callRule {operator : Token} {callee : Ty} {args : List (Token × Ty)} :
    Moves f id (callRule form operator callee args)
      (callRule (form.put f) (operator.put f) callee (args.map (putTyped f))) := by
  unfold callRule
  split
  next => exact .pure rfl
  next =>
    rw [List.length_map]
    split
    · exact moves_arguments.bind (.pure rfl)
    · exact moves_report
  next => exact moves_report

theorem moves_elements {index : Nat} {elem : Ty} {types : List (Token × Ty)} :
    Moves f id (elements index elem types) (elements index elem (types.map (putTyped f))) := by
  induction types generalizing index elem with
  | nil => exact .pure rfl
  | cons typed types ih =>
    obtain ⟨anchor, t⟩ := typed
    rw [List.map_cons, putTyped, elements, elements]
    split
    next => exact ih.bind (.pure rfl)
    next =>
      split
      next compatible =>
        obtain ⟨j, joined, _⟩ := exists_joined compatible
        rw [joined]
        exact ih
      next => exact moves_report.bind (ih.bind (.pure rfl))

theorem moves_listRule {elem : Ty} {types : List (Token × Ty)} :
    Moves f id (listRule elem types) (listRule elem (types.map (putTyped f))) :=
  moves_elements.bind (.pure rfl)

theorem moves_elementType {elem : Option Ty} :
    Moves f id (elementType anchor elem) (elementType (anchor.put f) elem) := by
  cases elem with
  | none => exact .pure rfl
  | some t => exact moves_written

theorem moves_assignRule {location stored : Ty} :
    Moves f id (assignRule anchor location stored)
      (assignRule (anchor.put f) location stored) := by
  unfold assignRule
  split
  next =>
    split
    · exact .pure rfl
    split
    · exact .pure rfl
    · exact moves_report
  next => exact .pure rfl

theorem moves_evalRule :
    Moves f id (evalRule o form anchor t) (evalRule o (form.put f) (anchor.put f) t) := by
  unfold evalRule
  split
  · exact .pure rfl
  split
  · exact moves_require.bind (.pure rfl)
  · exact moves_report

theorem moves_unaryRule {op : UnaryOp} :
    Moves f id (unaryRule o form op anchor t)
      (unaryRule o (form.put f) op (anchor.put f) t) := by
  cases op with
  | car | cdr | deref =>
    refine moves_require.bind ?_
    dsimp only [id]
    split <;> exact .pure rfl
  | null | free => exact moves_require.bind (.pure rfl)
  | ref => exact .pure rfl
  | eval => exact moves_evalRule

theorem moves_bindingType {binder : Binder} :
    Moves f id (bindingType binder anchor t) (bindingType (binder.put f) (anchor.put f) t) := by
  unfold bindingType
  dsimp only [Binder.put]
  split
  · exact .pure rfl
  · exact moves_annotated.bind moves_reconcile

end

/-! Expressions. -/

section

variable {f : Token → Position} {o : Options} {env : Env Ty}

theorem moves_exprs {es : List Expr} (gapless : ∀ e ∈ es, e.Gapless)
    (each : ∀ e ∈ es, Moves f id (expr o env e) (expr o env (e.put f))) :
    Moves f (List.map (putTyped f)) (exprs o env es) (exprs o env (es.map (Expr.put f))) := by
  induction es with
  | nil => exact .pure rfl
  | cons e es ih =>
    obtain ⟨first, rest⟩ := List.forall_mem_cons.mp each
    obtain ⟨whole, othersWhole⟩ := List.forall_mem_cons.mp gapless
    rw [List.map_cons, exprs_cons, exprs_cons, Expr.token_put whole]
    exact first.bind ((ih othersWhole rest).bind (.pure rfl))

theorem moves_operands {op : String} {index : Nat} {es : List Expr}
    (gapless : ∀ e ∈ es, e.Gapless)
    (each : ∀ e ∈ es, Moves f id (expr o env e) (expr o env (e.put f))) :
    Moves f id (operands o env op index es)
      (operands o env op index (es.map (Expr.put f))) := by
  induction es generalizing index with
  | nil => exact .pure rfl
  | cons e es ih =>
    obtain ⟨first, rest⟩ := List.forall_mem_cons.mp each
    obtain ⟨whole, othersWhole⟩ := List.forall_mem_cons.mp gapless
    rw [List.map_cons, operands_cons, operands_cons, Expr.token_put whole]
    exact (first.bind moves_require).bind ((ih othersWhole rest).bind (.pure rfl))

theorem moves_bindings {bound : List (Binder × Expr)}
    (gapless : ∀ binding ∈ bound, binding.2.Gapless)
    (each : ∀ binding ∈ bound, Moves f id (expr o env binding.2) (expr o env (binding.2.put f))) :
    Moves f id (bindings o env bound) (bindings o env (Expr.putBindings f bound)) := by
  induction bound with
  | nil => exact .pure rfl
  | cons binding bound ih =>
    obtain ⟨first, rest⟩ := List.forall_mem_cons.mp each
    obtain ⟨whole, othersWhole⟩ := List.forall_mem_cons.mp gapless
    obtain ⟨binder, value⟩ := binding
    rw [Expr.putBindings, bindings_cons, bindings_cons, Expr.token_put whole]
    exact (first.bind moves_bindingType).bind ((ih othersWhole rest).bind (.pure rfl))

theorem moves_recursiveBindings {bound : List (Binder × Expr)}
    (gapless : ∀ binding ∈ bound, binding.2.Gapless)
    (each : ∀ binding ∈ bound, Moves f id (expr o env binding.2) (expr o env (binding.2.put f))) :
    Moves f id (recursiveBindings o env bound)
      (recursiveBindings o env (Expr.putBindings f bound)) := by
  induction bound with
  | nil => exact .pure rfl
  | cons binding bound ih =>
    obtain ⟨first, rest⟩ := List.forall_mem_cons.mp each
    obtain ⟨whole, othersWhole⟩ := List.forall_mem_cons.mp gapless
    obtain ⟨binder, value⟩ := binding
    have declared : (annotated (binder.put f)).value = (annotated binder).value :=
      moves_annotated.value
    rw [Expr.putBindings, recursiveBindings_cons, recursiveBindings_cons, Expr.token_put whole,
      declared]
    exact (first.bind moves_reconcile).bind ((ih othersWhole rest).bind (.pure rfl))

theorem moves_binary {token : Token} {op : BinaryOp} {left right : Expr}
    (leftWhole : left.Gapless) (rightWhole : right.Gapless)
    (first : Moves f id (expr o env left) (expr o env (left.put f)))
    (second : Moves f id (expr o env right) (expr o env (right.put f))) :
    Moves f id (expr o env (.binary token op left right))
      (expr o env (.binary (token.put f) op (left.put f) (right.put f))) := by
  cases numeric : op.numericResult? with
  | some result =>
    rw [expr_numeric numeric, expr_numeric numeric, Expr.token_put leftWhole,
      Expr.token_put rightWhole]
    exact (first.bind moves_require).bind ((second.bind moves_require).bind (.pure rfl))
  | none =>
    cases op with
    | cons => exact first.bind (second.bind (.pure rfl))
    | assign =>
      rw [expr_assign, expr_assign, Expr.token_put leftWhole, Expr.token_put rightWhole]
      exact (first.bind moves_require).bind (second.bind moves_assignRule)
    | _ => cases numeric

theorem moves_expr (e : Expr) (gapless : e.Gapless) (env : Env Ty) :
    Moves f id (expr o env e) (expr o env (e.put f)) := by
  induction e using Expr.induction generalizing env with
  | absent => simp [Expr.Gapless, Expr.gaps] at gapless
  | number token value => exact .pure rfl
  | string token value => exact .pure rfl
  | bool token value => exact .pure rfl
  | unit token => exact .pure rfl
  | broken token message => exact moves_report
  | var token name =>
    rw [Expr.put, expr_var, expr_var]
    split
    · exact .pure rfl
    · exact moves_report
  | add token operands ih =>
    have whole := Expr.gapless_of_mem gapless
    rw [Expr.put, Expr.putAll_eq, expr_add, expr_add]
    exact (moves_operands whole fun e member => ih e member (whole e member) env).bind (.pure rfl)
  | binary token op left right ihLeft ihRight =>
    have whole : left.Gapless ∧ right.Gapless := by
      simpa [Expr.Gapless, Expr.gaps] using gapless
    exact moves_binary whole.1 whole.2 (ihLeft whole.1 env) (ihRight whole.2 env)
  | unary token op operand ih =>
    have whole : operand.Gapless := gapless
    rw [Expr.put, expr_unary, expr_unary, Expr.token_put whole]
    exact (ih whole env).bind moves_unaryRule
  | branch token cond yes no ihCond ihYes ihNo =>
    obtain ⟨condWhole, yesWhole, noWhole⟩ : cond.Gapless ∧ yes.Gapless ∧ no.Gapless := by
      simpa [Expr.Gapless, Expr.gaps] using gapless
    rw [Expr.put, expr_branch, expr_branch, Expr.token_put condWhole]
    exact (ihCond condWhole env).bind
      ((ihYes yesWhole env).bind ((ihNo noWhole env).bind moves_branchRule))
  | letIn token bound body ihBound ihBody =>
    rw [Expr.Gapless, Expr.gaps, List.mem_append, not_or] at gapless
    have whole := Expr.gapless_of_mem_bindings gapless.1
    have boundMoved := moves_bindings whole fun binding member =>
      ihBound binding member (whole binding member) env
    exact boundMoved.bind ((ihBody gapless.2 _).bind (.pure rfl))
  | letrec token bound body ihBound ihBody =>
    rw [Expr.Gapless, Expr.gaps, List.mem_append, not_or] at gapless
    have whole := Expr.gapless_of_mem_bindings gapless.1
    rw [Expr.put, expr_letrec, expr_letrec, Expr.binders_putBindings]
    refine moves_annotations.bind ?_
    rw [scope_put]
    refine (moves_recursiveBindings whole fun binding member =>
      ihBound binding member (whole binding member) _).bind ?_
    exact (ihBody gapless.2 _).bind (.pure rfl)
  | lambda token params body ih =>
    have whole : body.Gapless := by simpa [Expr.Gapless, Expr.gaps] using gapless
    rw [Expr.put, expr_lambda, expr_lambda]
    refine moves_annotations.bind ?_
    rw [scope_put]
    exact (ih whole _).bind (.pure rfl)
  | call token operator args ihOperator ihArgs =>
    rw [Expr.Gapless, Expr.gaps, List.mem_append, not_or] at gapless
    have whole := Expr.gapless_of_mem gapless.2
    rw [Expr.put, Expr.putAll_eq, expr_call, expr_call, Expr.token_put gapless.1]
    have argsMoved := moves_exprs whole fun e member => ihArgs e member (whole e member) env
    exact (ihOperator gapless.1 env).bind (argsMoved.bind moves_callRule)
  | list token elem elems ih =>
    have whole := Expr.gapless_of_mem gapless
    rw [Expr.put, Expr.putAll_eq, expr_list, expr_list]
    have elemsMoved := moves_exprs whole fun e member => ih e member (whole e member) env
    exact moves_elementType.bind (elemsMoved.bind moves_listRule)
  | read token => exact .pure rfl
  | readFrom token source ih =>
    have whole : source.Gapless := gapless
    rw [Expr.put, expr_readFrom, expr_readFrom, Expr.token_put whole]
    exact ((ih whole env).bind moves_require).bind (.pure rfl)

theorem moves_decl {d : Decl} (gapless : d.value.Gapless) :
    Moves f id (decl o env d) (decl o env (d.put f)) := by
  unfold decl
  dsimp only [Decl.put, Binder.put]
  split
  · exact (moves_expr _ gapless env).bind (.pure rfl)
  · rw [Expr.token_put gapless]
    exact moves_annotated.bind ((moves_expr _ gapless _).bind (moves_reconcile.bind (.pure rfl)))

end

end Check

end TypedForms
