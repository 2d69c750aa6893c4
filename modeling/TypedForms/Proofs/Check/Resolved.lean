import TypedForms.Proofs.Check.Coupling
import TypedForms.Proofs.Check.Lists

/-! Where placeholders come from. A list without a written element type starts out unresolved, and
takes over the type of its first element that is no error. So what is unresolved in a type comes
from an empty list, or was unresolved in a written type or in the environment before. -/
namespace TypedForms

/-- Whether the expression is an empty list without a written element type. -/
def Expr.isHollow : Expr → Bool
  | .list _ none [] => true
  | _ => false

namespace Ty

/-- Nothing unresolved stands in the type, at any depth. -/
def Resolved (t : Ty) : Prop := t.contains .unresolved = false

namespace Resolved

theorem error (message : String) : Resolved (.error message) := rfl

theorem func_iff {params : List Ty} {result : Ty} :
    Resolved (.func params result) ↔ (∀ t ∈ params, Resolved t) ∧ Resolved result := by
  simp [Resolved, contains, containsAny_eq_false_iff]

theorem pair_iff {left right : Ty} :
    Resolved (.pair left right) ↔ Resolved left ∧ Resolved right := by
  simp [Resolved, contains]

theorem list_iff {elem : Ty} : Resolved (.list elem) ↔ Resolved elem := by
  simp [Resolved, contains]

theorem ref_iff {elem : Ty} : Resolved (.ref elem) ↔ Resolved elem := by
  simp [Resolved, contains]

theorem join? {t u j : Ty} (left : t.Resolved) (right : u.Resolved) (joined : t.join? u = some j) :
    j.Resolved := by
  by_contra found
  rw [Resolved, Bool.not_eq_false] at found
  rcases contains_of_join? joined found with found | found
  · exact absurd (left.symm.trans found) Bool.false_ne_true
  · exact absurd (right.symm.trans found) Bool.false_ne_true

end Resolved

/-- A type that is an error, or has no placeholder in it at all. -/
theorem isConcrete_of_resolved {t : Ty} (tidy : t.Tidy) (resolved : t.Resolved) :
    t.isError = true ∨ t.isConcrete = true :=
  tidy.imp_right fun free => isConcrete_iff.mpr ⟨free, resolved⟩

end Ty

namespace Check

variable {o : Options} {env : Env Ty} {anchor form : Token} {t : Ty}

/-! The rules one by one. -/

theorem resolved_orError {parts : List Ty}
    (resolved : (∀ part ∈ parts, part.isError = false) → t.Resolved) :
    (orError parts t).Resolved := by
  unfold orError
  cases found : Ty.firstError? parts with
  | some message => exact .error message
  | none => exact resolved (Ty.firstError?_eq_none_iff.mp found)

theorem resolved_require {fits : Bool} {cause : TypeError} (resolved : t.Resolved) :
    (require anchor t fits cause).value.Resolved := by
  rcases require_cases anchor t fits cause with ⟨passed, _⟩ | ⟨reported, _⟩
  · rw [passed]
    exact resolved
  · rw [reported]
    exact .error _

theorem resolved_written (resolved : t.Resolved) : (written anchor t).value.Resolved := by
  unfold written
  split
  · exact .error _
  · exact resolved

theorem resolved_annotated {binder : Binder}
    (resolved : ∀ t, binder.type = some t → t.Resolved) : (annotated binder).value.Resolved := by
  unfold annotated
  split
  next => exact .error _
  next t typed => exact resolved_written (resolved t typed)

theorem resolved_reconcile {kind : BindingForm} {name : String} {declared got : Ty}
    (declaredResolved : declared.Resolved) (gotResolved : got.Resolved) :
    (reconcile kind name anchor declared got).value.Resolved := by
  unfold reconcile
  split
  · exact declaredResolved
  split
  · exact gotResolved
  split
  · exact declaredResolved
  · repeat' split
    all_goals exact .error _

theorem resolved_bindingType {binder : Binder}
    (written : ∀ t, binder.type = some t → t.Resolved) (got : t.Resolved) :
    (bindingType binder anchor t).value.Resolved := by
  unfold bindingType
  split
  · exact got
  · exact resolved_reconcile (resolved_annotated written) got

theorem resolved_joined {u : Ty} (left : t.Resolved) (right : u.Resolved) :
    (joined t u).value.Resolved := by
  unfold joined
  split
  next found => exact left.join? right found
  next => exact .error _

theorem resolved_branchRule {condition : Token} {cond yes no : Ty} (condResolved : cond.Resolved)
    (yesResolved : yes.Resolved) (noResolved : no.Resolved) :
    (branchRule form condition cond yes no).value.Resolved := by
  unfold branchRule
  rw [Diagnosed.value_bind]
  split
  next => exact resolved_orError fun _ => .error _
  next =>
    split
    next =>
      split
      · exact resolved_require condResolved
      · exact resolved_joined yesResolved noResolved
    next => exact resolved_orError fun _ => .error _

theorem resolved_callRule {operator : Token} {callee : Ty} {args : List (Token × Ty)}
    (resolved : callee.Resolved) : (callRule form operator callee args).value.Resolved := by
  unfold callRule
  split
  next => exact resolved
  next params result =>
    split
    next => exact resolved_orError fun _ => (Ty.Resolved.func_iff.mp resolved).2
    next => exact .error _
  next => exact .error _

/-- Elements that are resolved leave the type they share resolved. -/
theorem resolved_elements {index : Nat} {elem : Ty} {types : List (Token × Ty)}
    (elemResolved : elem.Resolved) (resolved : ∀ t ∈ types, t.2.Resolved) :
    (elements index elem types).value.2.Resolved := by
  induction types generalizing index elem with
  | nil => exact elemResolved
  | cons first types ih =>
    obtain ⟨firstResolved, restResolved⟩ := List.forall_mem_cons.mp resolved
    rw [elements]
    split
    next => exact ih elemResolved restResolved
    next =>
      split
      next => exact ih (resolved_joined elemResolved firstResolved) restResolved
      next => exact ih elemResolved restResolved

/-- The first element takes the place of an unresolved type, or is an error. -/
theorem resolved_elements_of_unresolved {index : Nat} {first : Token × Ty}
    {types : List (Token × Ty)} (resolved : ∀ t ∈ first :: types, t.2.Resolved)
    (sound : ∀ t ∈ (elements index .unresolved (first :: types)).value.1, t.isError = false) :
    (elements index .unresolved (first :: types)).value.2.Resolved := by
  obtain ⟨anchor, t⟩ := first
  obtain ⟨firstResolved, restResolved⟩ := List.forall_mem_cons.mp resolved
  have unresolvedSound : Ty.unresolved.isError = false := rfl
  rcases @elements_cases index anchor .unresolved t types unresolvedSound with
    ⟨error, pushed⟩ | ⟨_, _, j, joined, next⟩ | ⟨_, clash, _⟩
  · rw [pushed] at sound
    simp [sound t List.mem_cons_self] at error
  · obtain rfl : t = j := by simpa [Ty.join?] using joined
    rw [next]
    exact resolved_elements firstResolved restResolved
  · simp [Ty.compatible] at clash

theorem resolved_listRule {elem : Ty} {types : List (Token × Ty)}
    (start : elem.Resolved ∨ elem = .unresolved ∧ types ≠ [])
    (resolved : ∀ t ∈ types, t.2.Resolved) : (listRule elem types).value.Resolved := by
  apply resolved_orError
  intro sound
  rw [Ty.Resolved.list_iff]
  rcases start with elemResolved | ⟨rfl, someElement⟩
  · exact resolved_elements elemResolved resolved
  · obtain ⟨first, rest, rfl⟩ := List.exists_cons_of_ne_nil someElement
    exact resolved_elements_of_unresolved resolved (List.forall_mem_cons.mp sound).2

theorem resolved_assignRule {location stored : Ty} (locationResolved : location.Resolved)
    (storedResolved : stored.Resolved) :
    (assignRule anchor location stored).value.Resolved := by
  unfold assignRule
  split
  next =>
    split
    · exact storedResolved
    split
    · rfl
    · exact .error _
  next => exact locationResolved

/-- The types that options give to what is read and evaluated. -/
structure ResolvedOptions (o : Options) : Prop where
  input : o.inputType.Resolved
  eval : o.eval = .dynamic → o.evalResult.Resolved

theorem ResolvedOptions.of_valid (valid : o.problem? = none) : ResolvedOptions o where
  input := (Ty.isConcrete_iff.mp (Options.concrete_inputType valid).2).2
  eval dynamic := (Ty.isConcrete_iff.mp (Options.concrete_evalResult valid dynamic).2).2

theorem resolved_evalRule (options : ResolvedOptions o) (resolved : t.Resolved) :
    (evalRule o form anchor t).value.Resolved := by
  unfold evalRule
  split
  next => exact resolved
  next =>
    split
    next dynamic => exact resolved_orError fun _ => options.eval dynamic
    next => exact .error _

theorem resolved_unaryRule {op : UnaryOp} (options : ResolvedOptions o) (resolved : t.Resolved) :
    (unaryRule o form op anchor t).value.Resolved := by
  have fitting {fits : Bool} {cause : TypeError} {u : Ty}
      (found : (require anchor t fits cause).value = u) : u.Resolved :=
    found ▸ resolved_require resolved
  cases op with
  | car =>
    rw [unaryRule, Diagnosed.value_bind]
    split
    next found => exact (Ty.Resolved.pair_iff.mp (fitting found)).1
    next => exact fitting rfl
  | cdr =>
    rw [unaryRule, Diagnosed.value_bind]
    split
    next found => exact (Ty.Resolved.pair_iff.mp (fitting found)).2
    next => exact fitting rfl
  | deref =>
    rw [unaryRule, Diagnosed.value_bind]
    split
    next found => exact Ty.Resolved.ref_iff.mp (fitting found)
    next => exact fitting rfl
  | ref => exact resolved_orError fun _ => Ty.Resolved.ref_iff.mpr resolved
  | null | free => exact resolved_orError fun _ => rfl
  | eval => exact resolved_evalRule options resolved

/-! Expressions. -/

theorem resolved_exprs {es : List Expr} (each : ∀ e ∈ es, (expr o env e).value.Resolved) :
    ∀ t ∈ (exprs o env es).value, t.2.Resolved := by
  rw [value_exprs, List.forall_mem_map]
  exact each

theorem resolved_bindings {bound : List (Binder × Expr)}
    (written : ∀ t ∈ Expr.writtenTypesBindings bound, t.Resolved)
    (each : ∀ binding ∈ bound, (expr o env binding.2).value.Resolved) :
    ∀ binding ∈ (bindings o env bound).value, binding.2.Resolved := by
  rw [bindings_eq_sequence, Diagnosed.value_sequence, List.map_map, List.forall_mem_map]
  intro binding member
  apply resolved_bindingType
  · intro t typed
    exact written t (Expr.mem_writtenTypesBindings.mpr ⟨binding, member, .inl typed⟩)
  · exact each binding member

theorem resolved_annotations {binders : List Binder}
    (written : ∀ t ∈ binders.filterMap (·.type), t.Resolved) :
    ∀ t ∈ (annotations binders).value, t.Resolved := by
  rw [value_annotations, List.forall_mem_map]
  intro binder member
  apply resolved_annotated
  intro t typed
  exact written t (List.mem_filterMap.mpr ⟨binder, member, typed⟩)

theorem resolved_scope {binders : List Binder} (resolved : env.All Ty.Resolved)
    (written : ∀ t ∈ binders.filterMap (·.type), t.Resolved) :
    (scope env binders (annotations binders).value).All Ty.Resolved := by
  apply resolved.extendAll
  intro binding member
  exact resolved_annotations written _ (List.of_mem_zip member).2

/-- Types stay resolved where no list in the expression is empty without a written element type. -/
theorem resolved_expr (options : ResolvedOptions o) (e : Expr) (resolved : env.All Ty.Resolved)
    (filled : ∀ part ∈ e.subexprs, part.isHollow = false)
    (written : ∀ t ∈ e.writtenTypes, t.Resolved) : (expr o env e).value.Resolved := by
  induction e using Expr.induction generalizing env with
  | absent | broken => exact .error _
  | number | string | bool | unit => rfl
  | read token => exact options.input
  | var token name =>
    rw [expr_var]
    split
    next t found => exact resolved name t found
    next => exact .error _
  | add token addends ih => exact resolved_orError fun _ => rfl
  | binary token op left right ihLeft ihRight =>
    simp only [Expr.subexprs, Expr.writtenTypes, List.forall_mem_cons,
      List.forall_mem_append] at filled written
    have leftResolved := ihLeft resolved filled.2.1 written.1
    have rightResolved := ihRight resolved filled.2.2 written.2
    cases op with
    | cons =>
      exact resolved_orError fun _ => Ty.Resolved.pair_iff.mpr ⟨leftResolved, rightResolved⟩
    | assign =>
      rw [expr_assign]
      exact resolved_assignRule (resolved_require leftResolved) rightResolved
    | sub | mul | div | less | greater | equal => exact resolved_orError fun _ => rfl
  | unary token op operand ih =>
    have inner := ih resolved (List.forall_mem_cons.mp filled).2 written
    rw [expr_unary]
    exact resolved_unaryRule options inner
  | branch token cond yes no ihCond ihYes ihNo =>
    simp only [Expr.subexprs, Expr.writtenTypes, List.forall_mem_cons,
      List.forall_mem_append] at filled written
    obtain ⟨_, ⟨condFilled, yesFilled⟩, noFilled⟩ := filled
    exact resolved_branchRule (ihCond resolved condFilled written.1.1)
      (ihYes resolved yesFilled written.1.2) (ihNo resolved noFilled written.2)
  | letIn token bound body ihBound ihBody =>
    simp only [Expr.subexprs, Expr.writtenTypes, List.forall_mem_cons, List.forall_mem_append,
      Expr.subexprsValues_eq, List.forall_mem_flatMap] at filled written
    obtain ⟨_, valuesFilled, bodyFilled⟩ := filled
    have values : ∀ binding ∈ bound, (expr o env binding.2).value.Resolved := by
      intro binding member
      apply ihBound binding member resolved (valuesFilled binding member)
      intro t typed
      exact written.1 t (Expr.mem_writtenTypesBindings.mpr ⟨binding, member, .inr typed⟩)
    have inner := resolved.extendAll (resolved_bindings written.1 values)
    exact resolved_orError fun _ => ihBody inner bodyFilled written.2
  | letrec token bound body ihBound ihBody =>
    simp only [Expr.subexprs, Expr.writtenTypes, List.forall_mem_cons,
      List.forall_mem_append] at filled written
    have declared : ∀ t ∈ (bound.map (·.1)).filterMap (·.type), t.Resolved := by
      intro t member
      obtain ⟨_, binders, typed⟩ := List.mem_filterMap.mp member
      obtain ⟨binding, bound, rfl⟩ := List.mem_map.mp binders
      exact written.1 t (Expr.mem_writtenTypesBindings.mpr ⟨binding, bound, .inl typed⟩)
    rw [expr_letrec]
    exact resolved_orError fun _ =>
      ihBody (resolved_scope resolved declared) filled.2.2 written.2
  | lambda token params body ih =>
    simp only [Expr.subexprs, Expr.writtenTypes, List.forall_mem_cons,
      List.forall_mem_append] at filled written
    have types := resolved_annotations written.1
    have result := ih (resolved_scope resolved written.1) filled.2 written.2
    exact resolved_orError fun _ => Ty.Resolved.func_iff.mpr ⟨types, result⟩
  | call token operator args ihOperator ihArgs =>
    simp only [Expr.subexprs, Expr.writtenTypes, List.forall_mem_cons,
      List.forall_mem_append] at filled written
    exact resolved_callRule (ihOperator resolved filled.2.1 written.1)
  | list token elem elems ih =>
    simp only [Expr.subexprs, Expr.writtenTypes, List.forall_mem_cons, List.forall_mem_append,
      Expr.subexprsAll_eq, List.forall_mem_flatMap] at filled written
    have types : ∀ t ∈ (exprs o env elems).value, t.2.Resolved := by
      apply resolved_exprs
      intro e member
      apply ih e member resolved (filled.2 e member)
      intro t typed
      exact written.2 t (Expr.mem_writtenTypesAll.mpr ⟨e, member, typed⟩)
    rw [expr_list]
    refine resolved_listRule ?_ types
    -- An element type is written, or else the list is not empty.
    cases elem with
    | some t => exact .inl (resolved_written (written.1 t (by simp)))
    | none =>
      refine .inr ⟨rfl, ?_⟩
      rw [value_exprs, ne_eq, List.map_eq_nil_iff]
      rintro rfl
      simp [Expr.isHollow] at filled
  | readFrom token source ih => exact resolved_orError fun _ => options.input

/-- A placeholder comes from an empty list without a written element type. Where there is none, and
none stands in the written types or in the types of names, the type of an expression is an error or
has no placeholder in it, at any depth. It is no error if nothing is noted and no name in use stands
for one. -/
theorem placeholder_comes_from_empty_list (valid : o.problem? = none)
    (concrete : env.All fun t => t.isError = true ∨ t.isConcrete = true) (e : Expr)
    (filled : ∀ part ∈ e.subexprs, part.isHollow = false)
    (written : ∀ t ∈ e.writtenTypes, t.contains .unresolved = false) :
    ((expr o env e).value.isError = true ∨ (expr o env e).value.isConcrete = true) ∧
    ((expr o env e).notes = [] → ¬ UsesError env e → (expr o env e).value.isConcrete = true) := by
  have tidy : env.All Ty.Tidy := by
    intro name t found
    exact (concrete name t found).imp_right fun whole => (Ty.isConcrete_iff.mp whole).1
  have resolved : env.All Ty.Resolved := by
    intro name t found
    rcases concrete name t found with error | whole
    · obtain ⟨message, rfl⟩ := Ty.eq_error_of_isError error
      exact .error message
    · exact (Ty.isConcrete_iff.mp whole).2
  have either := Ty.isConcrete_of_resolved (tidy_expr valid e tidy)
    (resolved_expr (.of_valid valid) e resolved filled written)
  refine ⟨either, ?_⟩
  intro notes unused
  apply either.resolve_left
  rw [isError_expr_iff valid e tidy]
  exact not_or.mpr ⟨not_not.mpr notes, unused⟩

/-- The element type of a list is found behind a name and a part of a pair, next to a name that
stands for an error. -/
theorem placeholder_comes_from_empty_list_of_nested_lists :
    let env := (Env.empty.extend "x" (.error "lost")).extend "p" (Ty.pair .num .str)
    let e : Expr := .letIn .nowhere
      [(⟨.nowhere, "a", none⟩, .list .nowhere none [.unary .nowhere .car (.var .nowhere "p")])]
      (.lambda .nowhere [⟨.nowhere, "b", some (.ref .bool)⟩]
        (.list .nowhere (some (.list .num)) [.var .nowhere "a"]))
    Options.standard.problem? = none ∧
    (env.All fun t => t.isError = true ∨ t.isConcrete = true) ∧
    (∀ part ∈ e.subexprs, part.isHollow = false) ∧
    (∀ t ∈ e.writtenTypes, t.contains .unresolved = false) ∧
    (expr .standard env e).value = .func [.ref .bool] (.list (.list .num)) ∧
    (expr .standard env e).value.isConcrete = true := by
  intro env e
  have concrete : env.All fun t => t.isError = true ∨ t.isConcrete = true :=
    (Env.All.empty.extend (.inl rfl)).extend (.inr rfl)
  have filled : ∀ part ∈ e.subexprs, part.isHollow = false := by
    simp [e, Expr.subexprs, Expr.subexprsAll, Expr.subexprsValues, Expr.isHollow]
  have written : ∀ t ∈ e.writtenTypes, t.contains .unresolved = false := by
    simp [e, Expr.writtenTypes, Expr.writtenTypesAll, Expr.writtenTypesBindings, Ty.contains]
  have unused : ¬ UsesError env e := by
    rintro ⟨name, member, message, found⟩
    have free : e.freeNames = ["p"] := by decide
    rw [free, List.mem_singleton] at member
    subst member
    cases found
  obtain ⟨_, sound⟩ := placeholder_comes_from_empty_list (o := .standard) rfl concrete e filled
    written
  exact ⟨rfl, concrete, filled, written, rfl, sound rfl unused⟩

/-- An empty list leaves one behind. -/
example : (expr .standard .empty (.list .nowhere none [])).value = .list .unresolved := rfl

end Check

end TypedForms
