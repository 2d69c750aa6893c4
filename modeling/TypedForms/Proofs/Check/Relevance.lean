import TypedForms.Proofs.Check.Flaws
import TypedForms.Proofs.Diagnosed

/-! What a check depends on. Of an environment, an expression sees only what its free names stand
for. A form that binds names hides what these stood for outside, so that environments that agree
on the free names of the form agree inside of it on the free names of its parts. -/
namespace TypedForms

/-- After equal bindings a name stands for the same if it is one of theirs, or stood for the same
before. -/
theorem Env.lookup?_extendAll_congr {α : Type} {env env' : Env α} {bound : List (String × α)}
    {name : String}
    (same : name ∉ bound.map (·.1) → env.lookup? name = env'.lookup? name) :
    (env.extendAll bound).lookup? name = (env'.extendAll bound).lookup? name := by
  induction bound generalizing env env' with
  | nil => exact same (by simp)
  | cons binding bound ih =>
    rw [extendAll_cons, extendAll_cons]
    apply ih
    intro fresh
    rw [lookup?_extend, lookup?_extend]
    split
    · rfl
    · next different =>
      apply same
      rw [List.map_cons, List.mem_cons, not_or]
      exact ⟨Ne.symm different, fresh⟩

/-- The second step of a computation is only ever taken from the result of the first. -/
theorem Diagnosed.bind_congr_value {ε α β : Type} {x : Diagnosed ε α} {f g : α → Diagnosed ε β}
    (same : f x.value = g x.value) : x >>= f = x >>= g := by
  apply Diagnosed.ext
  · rw [value_bind, value_bind, same]
  · rw [notes_bind, notes_bind, same]

namespace Check

variable {o : Options} {env env' : Env Ty} {e : Expr} {name : String}

/-- The environments say the same about each of the names. -/
def AgreeOn (names : List String) (env env' : Env Ty) : Prop :=
  ∀ name ∈ names, env.lookup? name = env'.lookup? name

/-- Environments that agree on the names of all parts agree on those of each part. -/
theorem AgreeOn.part {es : List Expr} (agree : AgreeOn (Expr.freeNamesAll es) env env')
    (member : e ∈ es) : AgreeOn e.freeNames env env' :=
  fun name free => agree name (Expr.mem_freeNamesAll.mpr ⟨e, member, free⟩)

theorem AgreeOn.value {bound : List (Binder × Expr)} {binding : Binder × Expr}
    (agree : AgreeOn (Expr.freeNamesValues bound) env env') (member : binding ∈ bound) :
    AgreeOn binding.2.freeNames env env' :=
  fun name free => agree name (Expr.mem_freeNamesValues.mpr ⟨binding, member, free⟩)

theorem AgreeOn.append {names names' : List String}
    (agree : AgreeOn (names ++ names') env env') :
    AgreeOn names env env' ∧ AgreeOn names' env env' :=
  List.forall_mem_append.mp agree

/-- Inside of a form that binds names, what is said about other names is all that counts. -/
theorem AgreeOn.extendAll {names binders : List String} {bound : List (String × Ty)}
    (agree : AgreeOn (names.filter fun name => !binders.contains name) env env')
    (binds : bound.map (·.1) = binders) :
    AgreeOn names (env.extendAll bound) (env'.extendAll bound) := by
  intro name member
  apply Env.lookup?_extendAll_congr
  intro fresh
  apply agree
  rw [List.mem_filter]
  exact ⟨member, by simpa [← binds] using fresh⟩

theorem AgreeOn.scope {names : List String} {binders : List Binder}
    (agree : AgreeOn (names.filter fun name => !(binders.map (·.name)).contains name) env env') :
    AgreeOn names (scope env binders (annotations binders).value)
      (scope env' binders (annotations binders).value) :=
  agree.extendAll (List.map_fst_zip length_annotations.ge)

/-! Lists of parts that come out the same one by one. -/

theorem exprs_congr {es : List Expr} (each : ∀ e ∈ es, expr o env e = expr o env' e) :
    exprs o env es = exprs o env' es := by
  induction es with
  | nil => rfl
  | cons e es ih =>
    obtain ⟨first, rest⟩ := List.forall_mem_cons.mp each
    rw [exprs_cons, exprs_cons, first, ih rest]

theorem operands_congr {op : String} {index : Nat} {es : List Expr}
    (each : ∀ e ∈ es, expr o env e = expr o env' e) :
    operands o env op index es = operands o env' op index es := by
  induction es generalizing index with
  | nil => rfl
  | cons e es ih =>
    obtain ⟨first, rest⟩ := List.forall_mem_cons.mp each
    rw [operands_cons, operands_cons, first, ih rest]

theorem bindings_congr {bound : List (Binder × Expr)}
    (each : ∀ binding ∈ bound, expr o env binding.2 = expr o env' binding.2) :
    bindings o env bound = bindings o env' bound := by
  induction bound with
  | nil => rfl
  | cons binding rest ih =>
    obtain ⟨first, others⟩ := List.forall_mem_cons.mp each
    obtain ⟨binder, value⟩ := binding
    rw [bindings_cons, bindings_cons, first, ih others]

theorem recursiveBindings_congr {bound : List (Binder × Expr)}
    (each : ∀ binding ∈ bound, expr o env binding.2 = expr o env' binding.2) :
    recursiveBindings o env bound = recursiveBindings o env' bound := by
  induction bound with
  | nil => rfl
  | cons binding rest ih =>
    obtain ⟨first, others⟩ := List.forall_mem_cons.mp each
    obtain ⟨binder, value⟩ := binding
    rw [recursiveBindings_cons, recursiveBindings_cons, first, ih others]

/-- Environments that agree on the free names of an expression are the same to it. -/
theorem expr_congr (agree : AgreeOn e.freeNames env env') : expr o env e = expr o env' e := by
  induction e using Expr.induction generalizing env env' with
  | absent | number | string | bool | unit | broken | read => rfl
  | var token name => rw [expr_var, expr_var, agree name List.mem_cons_self]
  | add token addends ih =>
    have each : ∀ e ∈ addends, expr o env e = expr o env' e := by
      intro e member
      exact ih e member (AgreeOn.part agree member)
    rw [expr_add, expr_add, operands_congr each]
  | binary token op left right ihLeft ihRight =>
    obtain ⟨leftAgree, rightAgree⟩ := AgreeOn.append agree
    cases op <;> simp only [expr, ihLeft leftAgree, ihRight rightAgree]
  | unary token op operand ih => rw [expr_unary, expr_unary, ih agree]
  | branch token cond yes no ihCond ihYes ihNo =>
    obtain ⟨firstAgree, noAgree⟩ := AgreeOn.append agree
    obtain ⟨condAgree, yesAgree⟩ := firstAgree.append
    rw [expr_branch, expr_branch, ihCond condAgree, ihYes yesAgree, ihNo noAgree]
  | letIn token bound body ihBound ihBody =>
    obtain ⟨valuesAgree, bodyAgree⟩ := AgreeOn.append agree
    have each : ∀ binding ∈ bound, expr o env binding.2 = expr o env' binding.2 := by
      intro binding member
      exact ihBound binding member (valuesAgree.value member)
    rw [expr_letIn, expr_letIn, bindings_congr each]
    apply Diagnosed.bind_congr_value
    -- The same values have given the same types, so the body sees the same bindings.
    rw [ihBody (AgreeOn.extendAll bodyAgree names_bindings)]
  | letrec token bound body ihBound ihBody =>
    -- Here the values are inside as well: they and the body have one scope, by the written types.
    have inner : AgreeOn (Expr.freeNamesValues bound ++ body.freeNames)
        (scope env (bound.map (·.1)) (annotations (bound.map (·.1))).value)
        (scope env' (bound.map (·.1)) (annotations (bound.map (·.1))).value) := by
      apply AgreeOn.scope
      rw [List.map_map]
      exact agree
    obtain ⟨valuesAgree, bodyAgree⟩ := inner.append
    have each := recursiveBindings_congr (o := o) fun binding member =>
      ihBound binding member (valuesAgree.value member)
    rw [expr_letrec, expr_letrec]
    apply Diagnosed.bind_congr_value
    rw [each, ihBody bodyAgree]
  | lambda token params body ih =>
    rw [expr_lambda, expr_lambda]
    apply Diagnosed.bind_congr_value
    rw [ih (AgreeOn.scope agree)]
  | call token operator args ihOperator ihArgs =>
    obtain ⟨operatorAgree, argsAgree⟩ := AgreeOn.append agree
    have each : ∀ e ∈ args, expr o env e = expr o env' e := by
      intro e member
      exact ihArgs e member (argsAgree.part member)
    rw [expr_call, expr_call, ihOperator operatorAgree, exprs_congr each]
  | list token elem elems ih =>
    have each : ∀ e ∈ elems, expr o env e = expr o env' e := by
      intro e member
      exact ih e member (AgreeOn.part agree member)
    rw [expr_list, expr_list, exprs_congr each]
  | readFrom token source ih => rw [expr_readFrom, expr_readFrom, ih agree]

/-- The names that are noted as unbound are the free ones that are not visible. -/
theorem unboundNames_notes :
    (expr o env e).notes.filterMap (·.cause.unboundName?) =
      e.freeNames.filter (· ∉ env.visible) := by
  rw [filterMap_unboundName?_notes, flaws_expr, Expr.filterMap_unboundName?_flaws]

/-- A free name without a binding is noted, so it makes a difference to bind it. -/
theorem notes_ne_of_extend {t : Ty} (free : name ∈ e.freeNames)
    (unbound : env.lookup? name = none) :
    (expr o env e).notes ≠ (expr o (env.extend name t) e).notes := by
  intro same
  have names := congrArg (List.filterMap (·.cause.unboundName?)) same
  rw [unboundNames_notes, unboundNames_notes] at names
  have noted : name ∈ e.freeNames.filter (· ∉ env.visible) := by
    simpa [Env.mem_visible, unbound] using free
  rw [names] at noted
  simp [Env.visible_extend] at noted

/-- A check is a function of what the free names of the expression stand for. Environments that
agree on these give the same type and the same notes, whatever else they hold and in whatever
order. None of the free names can be left out: to bind one of them that is not bound yet changes
the notes. -/
theorem check_depends_on_free_names (o : Options) (e : Expr) :
    (∀ env env' : Env Ty, (∀ name ∈ e.freeNames, env.lookup? name = env'.lookup? name) →
      (expr o env e).value = (expr o env' e).value ∧
      (expr o env e).notes = (expr o env' e).notes) ∧
    ∀ name ∈ e.freeNames, ∀ (env : Env Ty) (t : Ty), env.lookup? name = none →
      (expr o env e).notes ≠ (expr o (env.extend name t) e).notes := by
  constructor
  · intro env env' agree
    have same : expr o env e = expr o env' e := expr_congr agree
    exact ⟨congrArg _ same, congrArg _ same⟩
  · intro name free env t unbound
    exact notes_ne_of_extend free unbound

/-- Names that are bound inside, twice or by a recursion, stand for what they do inside, and the
order of the others does not count. -/
theorem check_depends_on_free_names_below_binders :
    let e : Expr := .letrec .nowhere
      [(⟨.nowhere, "f", some (.func [.num] .str)⟩, .lambda .nowhere [⟨.nowhere, "x", some .num⟩]
        (.call .nowhere (.var .nowhere "f") [.var .nowhere "x"]))]
      (.letIn .nowhere [(⟨.nowhere, "y", none⟩, .var .nowhere "x"),
        (⟨.nowhere, "y", none⟩, .var .nowhere "z")]
        (.binary .nowhere .cons (.var .nowhere "y") (.call .nowhere (.var .nowhere "f")
          [.var .nowhere "y"])))
    let env : Env Ty := ⟨[("x", .bool), ("z", .num), ("f", .unit), ("x", .num)]⟩
    let env' : Env Ty := ⟨[("z", .num), ("y", .str), ("x", .bool), ("z", .unit)]⟩
    (∀ name ∈ e.freeNames, env.lookup? name = env'.lookup? name) ∧
    (expr .standard env' e).value = .pair .num .str ∧ (expr .standard env' e).notes = [] := by
  intro e env env'
  have free : e.freeNames = ["x", "z"] := by decide
  have agree : ∀ name ∈ e.freeNames, env.lookup? name = env'.lookup? name := by
    simp only [free, List.forall_mem_cons]
    exact ⟨rfl, rfl, by simp⟩
  obtain ⟨type, notes⟩ := (check_depends_on_free_names .standard e).1 env env' agree
  exact ⟨agree, type.symm, notes.symm⟩

end Check

end TypedForms
