import TypedForms.Proofs.Check.Absorption
import TypedForms.Proofs.Expr.Flaws

/-! The checker notes every flaw of an expression once, in a fixed order, whatever else it finds.
The rules for types add notes of their own, but none about scope or form, and no type that was found
keeps a part from being checked. -/
namespace TypedForms

/-- A problem with scope or form, and not with types. -/
def TypeError.isFlaw (cause : TypeError) : Bool :=
  cause.category == .unbound || cause.category == .malformed

namespace Env

variable {α : Type} {env : Env α}

/-- The set of visible names. -/
def visible (env : Env α) : Finset String := env.names.toFinset

theorem mem_visible {name : String} :
    name ∈ env.visible ↔ ∃ value, env.lookup? name = some value := by
  rw [visible, List.mem_toFinset, mem_names_iff]

theorem visible_extend {name : String} {value : α} :
    (env.extend name value).visible = insert name env.visible := by
  ext other
  rw [Finset.mem_insert, mem_visible, mem_visible, lookup?_extend]
  by_cases same : name = other
  · simp [same]
  · simp [same, Ne.symm same]

theorem visible_extendAll {bound : List (String × α)} :
    (env.extendAll bound).visible = env.visible ∪ (bound.map (·.1)).toFinset := by
  induction bound generalizing env with
  | nil => simp
  | cons binding bound ih =>
    rw [extendAll_cons, ih, visible_extend, List.map_cons, List.toFinset_cons, Finset.insert_union,
      Finset.union_insert]

end Env

/-! Definitions and programs. -/

/-- The flaws of a definition. A written type comes before the value, which may use the name. -/
def Decl.flaws (bound : Finset String) (d : Decl) : List (Diagnostic TypeError) :=
  match d.binder.type with
  | none => d.value.flaws bound
  | some _ => d.binder.flaws ++ d.value.flaws (insert d.binder.name bound)

/-- The flaws of definitions, each of which sees the names of those before it. -/
def Decl.flawsAll (bound : Finset String) : List Decl → List (Diagnostic TypeError)
  | [] => []
  | d :: ds => d.flaws bound ++ flawsAll (insert d.binder.name bound) ds

def Program.flaws (bound : Finset String) (p : Program) : List (Diagnostic TypeError) :=
  Decl.flawsAll bound p.decls ++
    p.result.flaws (bound ∪ (p.decls.map (·.binder.name)).toFinset)

namespace Check

variable {α β : Type} {o : Options} {env : Env Ty} {anchor : Token} {cause : TypeError} {t : Ty}

/-- The notes about scope and form. -/
def flaws (x : Checked α) : List (Diagnostic TypeError) := x.notes.filter (·.cause.isFlaw)

@[simp] theorem flaws_pure (a : α) : flaws (pure a) = [] := rfl

@[simp] theorem flaws_bind (x : Checked α) (f : α → Checked β) :
    flaws (x >>= f) = flaws x ++ flaws (f x.value) := by
  simp [flaws]

@[simp] theorem flaws_map (f : α → β) (x : Checked α) : flaws (f <$> x) = flaws x := by
  simp [flaws]

/-- Unbound names are flaws. -/
theorem filterMap_unboundName?_notes (x : Checked α) :
    x.notes.filterMap (·.cause.unboundName?) = (flaws x).filterMap (·.cause.unboundName?) := by
  rw [flaws, List.filterMap_filter]
  refine List.filterMap_congr fun note _ => ?_
  cases note.cause <;> rfl

/-- What is malformed is a flaw. -/
theorem formNotes_notes (x : Checked α) : Expr.formNotes x.notes = Expr.formNotes (flaws x) := by
  rw [flaws, Expr.formNotes, Expr.formNotes, List.filter_filter]
  refine List.filter_congr fun note _ => ?_
  cases category : note.cause.category <;> simp [TypeError.isFlaw, category]

/-! The rules one by one. Only those for written types find flaws. -/

theorem flaws_report (other : cause.isFlaw = false) : flaws (report anchor cause) = [] := by
  simp [flaws, report, other]

theorem flaws_report_flaw (flaw : cause.isFlaw = true) :
    flaws (report anchor cause) = [⟨anchor, cause⟩] := by
  simp [flaws, report, flaw]

theorem flaws_require {fits : Bool} (other : cause.isFlaw = false) :
    flaws (require anchor t fits cause) = [] := by
  rcases require_cases anchor t fits cause with ⟨passed, _⟩ | ⟨reported, _⟩
  · rw [passed, flaws_pure]
  · rw [reported, flaws_report other]

@[simp] theorem flaws_operand {index : Nat} {op : String} :
    flaws (operand index op anchor t) = [] := flaws_require rfl

@[simp] theorem flaws_reference {op : String} : flaws (reference op anchor t) = [] :=
  flaws_require rfl

@[simp] theorem flaws_reconcile {form : BindingForm} {name : String} {declared got : Ty} :
    flaws (reconcile form name anchor declared got) = [] := by
  unfold reconcile
  split
  · rfl
  split
  · rfl
  split
  · rfl
  split
  · split <;> exact flaws_report rfl
  · exact flaws_report rfl

@[simp] theorem flaws_joined {left right : Ty} : flaws (joined left right) = [] := by
  unfold joined
  split
  · rfl
  · exact flaws_report rfl

@[simp] theorem flaws_branchRule {form condition : Token} {cond yes no : Ty} :
    flaws (branchRule form condition cond yes no) = [] := by
  rw [branchRule, flaws_bind, flaws_require rfl, List.nil_append]
  split
  · rfl
  split
  · split
    · rfl
    · exact flaws_joined
  · rw [flaws_bind, flaws_report rfl, flaws_pure, List.append_nil]

@[simp] theorem flaws_arguments {index : Nat} {params : List Ty} {args : List (Token × Ty)} :
    flaws (arguments index params args) = [] := by
  induction params generalizing index args with
  | nil => rfl
  | cons param params ih =>
    cases args with
    | nil => rfl
    | cons arg args =>
      rw [arguments, flaws_bind, flaws_require rfl]
      simp [ih]

@[simp] theorem flaws_callRule {form operator : Token} {callee : Ty} {args : List (Token × Ty)} :
    flaws (callRule form operator callee args) = [] := by
  unfold callRule
  split
  · rfl
  · split
    · simp
    · exact flaws_report rfl
  · exact flaws_report rfl

@[simp] theorem flaws_elements {index : Nat} {elem : Ty} {types : List (Token × Ty)} :
    flaws (elements index elem types) = [] := by
  induction types generalizing index elem with
  | nil => rfl
  | cons t types ih =>
    rw [elements]
    split
    · simp [ih]
    split
    · simp [ih]
    · rw [flaws_bind, flaws_report rfl]
      simp [ih]

@[simp] theorem flaws_listRule {elem : Ty} {types : List (Token × Ty)} :
    flaws (listRule elem types) = [] := by
  simp [listRule]

@[simp] theorem flaws_assignRule {location stored : Ty} :
    flaws (assignRule anchor location stored) = [] := by
  unfold assignRule
  split
  · split
    · rfl
    split
    · rfl
    · exact flaws_report rfl
  · rfl

@[simp] theorem flaws_evalRule {form : Token} : flaws (evalRule o form anchor t) = [] := by
  unfold evalRule
  split
  · rfl
  split
  · rw [flaws_bind, flaws_require rfl, flaws_pure, List.append_nil]
  · exact flaws_report rfl

@[simp] theorem flaws_unaryRule {form : Token} {op : UnaryOp} :
    flaws (unaryRule o form op anchor t) = [] := by
  cases op with
  | car | cdr =>
    rw [unaryRule, flaws_bind, flaws_require rfl, List.nil_append]
    split <;> rfl
  | deref =>
    rw [unaryRule, flaws_bind, flaws_reference, List.nil_append]
    split <;> rfl
  | null => rw [unaryRule, flaws_bind, flaws_require rfl, flaws_pure, List.append_nil]
  | free => rw [unaryRule, flaws_bind, flaws_reference, flaws_pure, List.append_nil]
  | ref => rfl
  | eval => exact flaws_evalRule

@[simp] theorem flaws_written : flaws (written anchor t) = Ty.flaws anchor (some t) := by
  rw [written, Ty.flaws]
  split
  · exact flaws_report_flaw rfl
  · rfl

@[simp] theorem flaws_annotated {binder : Binder} : flaws (annotated binder) = binder.flaws := by
  unfold annotated Binder.flaws
  cases binder.type with
  | none => exact flaws_report_flaw rfl
  | some t => exact flaws_written

@[simp] theorem flaws_annotations {binders : List Binder} :
    flaws (annotations binders) = binders.flatMap Binder.flaws := by
  unfold annotations
  induction binders with
  | nil => rfl
  | cons binder binders ih => simp [Diagnosed.sequence, ih]

@[simp] theorem flaws_elementType {elem : Option Ty} :
    flaws (elementType anchor elem) = Ty.flaws anchor elem := by
  cases elem with
  | none => rfl
  | some t => exact flaws_written

@[simp] theorem flaws_bindingType {binder : Binder} :
    flaws (bindingType binder anchor t) = Ty.flaws binder.token binder.type := by
  unfold bindingType
  split
  next bare => rw [bare, flaws_pure, Ty.flaws]
  next type found =>
    rw [flaws_bind, flaws_annotated, flaws_reconcile, List.append_nil, Binder.flaws, found]

/-! Expressions. -/

theorem flaws_exprs {es : List Expr}
    (each : ∀ e ∈ es, flaws (expr o env e) = e.flaws env.visible) :
    flaws (exprs o env es) = Expr.flawsAll env.visible es := by
  induction es with
  | nil => rfl
  | cons e es ih =>
    obtain ⟨first, rest⟩ := List.forall_mem_cons.mp each
    simp [exprs_cons, Expr.flawsAll, first, ih rest]

theorem flaws_operands {op : String} {index : Nat} {es : List Expr}
    (each : ∀ e ∈ es, flaws (expr o env e) = e.flaws env.visible) :
    flaws (operands o env op index es) = Expr.flawsAll env.visible es := by
  induction es generalizing index with
  | nil => rfl
  | cons e es ih =>
    obtain ⟨first, rest⟩ := List.forall_mem_cons.mp each
    simp [operands_cons, Expr.flawsAll, first, ih rest]

theorem flaws_bindings {bound : List (Binder × Expr)}
    (each : ∀ b ∈ bound, flaws (expr o env b.2) = b.2.flaws env.visible) :
    flaws (bindings o env bound) = Expr.flawsBindings env.visible bound := by
  induction bound with
  | nil => rfl
  | cons binding rest ih =>
    obtain ⟨first, others⟩ := List.forall_mem_cons.mp each
    obtain ⟨binder, value⟩ := binding
    simp [bindings_cons, Expr.flawsBindings, first, ih others]

theorem flaws_recursiveBindings {bound : List (Binder × Expr)}
    (each : ∀ b ∈ bound, flaws (expr o env b.2) = b.2.flaws env.visible) :
    flaws (recursiveBindings o env bound) = Expr.flawsValues env.visible bound := by
  induction bound with
  | nil => rfl
  | cons binding rest ih =>
    obtain ⟨first, others⟩ := List.forall_mem_cons.mp each
    obtain ⟨binder, value⟩ := binding
    simp [recursiveBindings_cons, Expr.flawsValues, first, ih others]

theorem visible_scope {binders : List Binder} :
    (scope env binders (annotations binders).value).visible =
      env.visible ∪ (binders.map (·.name)).toFinset := by
  rw [scope, Env.visible_extendAll, List.map_fst_zip length_annotations.ge]

theorem flaws_expr (e : Expr) : flaws (expr o env e) = e.flaws env.visible := by
  induction e using Expr.induction generalizing env with
  | absent | number | string | bool | unit | read => rfl
  | broken => exact flaws_report_flaw rfl
  | var token name =>
    rw [expr_var, Expr.flaws]
    cases found : env.lookup? name with
    | some t => rw [if_pos (Env.mem_visible.mpr ⟨t, found⟩), flaws_pure]
    | none =>
      have hidden : name ∉ env.visible := by
        rw [Env.mem_visible, found]
        rintro ⟨t, ⟨⟩⟩
      rw [if_neg hidden]
      exact flaws_report_flaw rfl
  | add token addends ih =>
    rw [expr_add, flaws_bind, flaws_operands fun e member => ih e member]
    simp [Expr.flaws]
  | binary token op left right ihLeft ihRight =>
    cases op with
    | cons => simp [expr_cons, Expr.flaws, ihLeft, ihRight]
    | assign => simp [expr_assign, Expr.flaws, ihLeft, ihRight]
    | sub | mul | div | less | greater | equal =>
      rw [expr_numeric rfl]
      simp [Expr.flaws, ihLeft, ihRight]
  | unary token op operand ih => simp [expr_unary, Expr.flaws, ih]
  | branch token cond yes no ihCond ihYes ihNo =>
    simp [expr_branch, Expr.flaws, ihCond, ihYes, ihNo]
  | letIn token bound body ihBound ihBody =>
    have names := @names_bindings o env bound
    rw [expr_letIn, flaws_bind, flaws_bindings fun b member => ihBound b member, Expr.flaws]
    simp only [flaws_bind, flaws_pure, ihBody, Env.visible_extendAll, names, List.append_nil]
  | letrec token bound body ihBound ihBody =>
    have values := flaws_recursiveBindings fun b member =>
      @ihBound b member (scope env (bound.map (·.1)) (annotations (bound.map (·.1))).value)
    rw [expr_letrec, flaws_bind, flaws_annotations, flaws_bind, values, Expr.flaws]
    simp [ihBody, visible_scope, List.flatMap_map, Function.comp_def]
  | lambda token params body ih =>
    rw [expr_lambda, flaws_bind, flaws_annotations, Expr.flaws]
    simp [ih, visible_scope]
  | call token operator args ihOperator ihArgs =>
    simp [expr_call, Expr.flaws, ihOperator, flaws_exprs fun e member => ihArgs e member]
  | list token elem elems ih =>
    simp [expr_list, Expr.flaws, flaws_exprs fun e member => ih e member]
  | readFrom token source ih =>
    rw [expr_readFrom, flaws_bind, flaws_bind, flaws_require rfl, ih]
    simp [Expr.flaws]

/-! Definitions and programs. -/

theorem flaws_decl {d : Decl} :
    flaws (decl o env d) = d.flaws env.visible ∧
      (decl o env d).value.2.visible = insert d.binder.name env.visible := by
  unfold decl Decl.flaws
  cases d.binder.type with
  | none => simp [flaws_expr, Env.visible_extend]
  | some type => simp [flaws_expr, Env.visible_extend]

theorem flaws_decls {ds : List Decl} :
    flaws (decls o env ds) = Decl.flawsAll env.visible ds ∧
      (decls o env ds).value.visible = env.visible ∪ (ds.map (·.binder.name)).toFinset := by
  induction ds generalizing env with
  | nil => simp [decls, Decl.flawsAll]
  | cons d ds ih =>
    obtain ⟨first, extended⟩ := @flaws_decl o env d
    obtain ⟨rest, visible⟩ := @ih (decl o env d).value.2
    rw [decls, flaws_bind, Diagnosed.value_bind, first, rest, visible, extended, Decl.flawsAll,
      List.map_cons, List.toFinset_cons, Finset.insert_union, Finset.union_insert]
    exact ⟨rfl, rfl⟩

theorem flaws_program {p : Program} : flaws (program o env p) = p.flaws env.visible := by
  obtain ⟨defined, visible⟩ := @flaws_decls o env p.decls
  simp [program, Program.flaws, defined, flaws_expr, visible]

/-- The notes about scope and form are the flaws that the tree has by itself, in a fixed order. They
are known from the set of visible names alone, and so depend neither on what the names stand for nor
on the options: each free name without a binding is noted where it occurs, and each malformed
expression or written type once. -/
theorem notes_flaws_of_visible :
    (∀ o env e, (expr o env e).notes.filter (·.cause.isFlaw) = e.flaws env.visible ∧
      (expr o env e).notes.filterMap (·.cause.unboundName?) =
        e.freeNames.filter (· ∉ env.visible) ∧
      ((expr o env e).notes.filter (·.cause.category == .malformed)).Perm
        (e.subexprs.flatMap Expr.ownFlaws)) ∧
    (∀ o env d, (decl o env d).notes.filter (·.cause.isFlaw) = d.flaws env.visible) ∧
    (∀ o env p, (program o env p).notes.filter (·.cause.isFlaw) = p.flaws env.visible) ∧
    ∀ o o' env env' e, env.visible = env'.visible →
      (expr o env e).notes.filter (·.cause.isFlaw) =
        (expr o' env' e).notes.filter (·.cause.isFlaw) := by
  refine ⟨fun o env e => ⟨flaws_expr e, ?_, ?_⟩, fun o env d => flaws_decl.1,
    fun o env p => flaws_program, fun o o' env env' e same => ?_⟩
  · rw [filterMap_unboundName?_notes, flaws_expr, Expr.filterMap_unboundName?_flaws]
  · have malformed := @Expr.formNotes_flaws_perm env.visible e
    rwa [← @flaws_expr o, ← formNotes_notes] at malformed
  · have first := @flaws_expr o env e
    rw [same, ← @flaws_expr o'] at first
    exact first

end Check

end TypedForms
