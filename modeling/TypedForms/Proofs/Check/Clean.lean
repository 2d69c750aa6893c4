import TypedForms.Proofs.Check.Environments
import TypedForms.Proofs.Check.Traced
import TypedForms.Proofs.Ty.Settled

/-! Clean types. Where names stand for clean types, and nothing unresolved strays in the types
that are written, the types found are clean as well, and so are the environments that parts of an
expression are checked in. No error is ever buried in a type, and no expression is left with the
bare placeholder for a type. -/
namespace TypedForms

theorem Ty.Clean.tidy {t : Ty} (clean : t.Clean) : t.Tidy :=
  clean.imp_right Settled.errorFree

namespace Env

/-- The first environment is the second one with bindings of clean types added. -/
def CleanlyExtends (env' env : Env Ty) : Prop :=
  ∃ bound : List (String × Ty), env' = env.extendAll bound ∧ ∀ binding ∈ bound, binding.2.Clean

namespace CleanlyExtends

variable {env env' env'' : Env Ty}

theorem refl (env : Env Ty) : env.CleanlyExtends env := ⟨[], rfl, by simp⟩

theorem extend {name : String} {t : Ty} (clean : t.Clean) :
    (env.extend name t).CleanlyExtends env :=
  ⟨[(name, t)], rfl, by simpa using clean⟩

theorem trans (later : env''.CleanlyExtends env') (first : env'.CleanlyExtends env) :
    env''.CleanlyExtends env := by
  obtain ⟨bound, rfl, clean⟩ := first
  obtain ⟨bound', rfl, clean'⟩ := later
  refine ⟨bound ++ bound', ?_, List.forall_mem_append.mpr ⟨clean, clean'⟩⟩
  simp only [extendAll, List.foldl_append]

theorem all (extends' : env'.CleanlyExtends env) (clean : env.All Ty.Clean) :
    env'.All Ty.Clean := by
  obtain ⟨bound, rfl, new⟩ := extends'
  exact clean.extendAll new

end CleanlyExtends

end Env

/-- The types written in a definition: that of its name, and those in its value. -/
def Decl.writtenTypes (d : Decl) : List Ty := d.binder.type.toList ++ d.value.writtenTypes

namespace Check

variable {o : Options} {env : Env Ty} {e : Expr}

/-- Where there is a note, the type is an error. Where there is none, the check is held against
itself as one in which types may have become coarser, which keeps clean types clean. -/
theorem clean_expr (valid : o.problem? = none) (placed : ∀ t ∈ e.writtenTypes, t.strays = false)
    (clean : env.All Ty.Clean) : (expr o env e).value.Clean := by
  have tidy : env.All Ty.Tidy := fun name t found => (clean name t found).tidy
  by_cases notes : (expr o env e).notes = []
  · have read := Ty.settled_of_isConcrete (Options.concrete_inputType valid).2
    have eval := fun dynamic =>
      Ty.settled_of_isConcrete (Options.concrete_evalResult valid dynamic).2
    have written : ∀ t ∈ e.writtenTypes, t.ErrorFree → t.Settled := fun t member free =>
      Ty.settled_iff.mpr ⟨free, placed t member⟩
    have coarser := related_self coupling_coarser (.refl (.inr read))
      (fun dynamic => .refl (.inr (eval dynamic)))
      (fun t member free => .refl (.inr (written t member free)))
      (fun name t found => .refl (clean name t found)) notes
    exact coarser.imp And.left And.left
  · exact .inl ((isError_expr_iff valid e tidy).mpr (.inl notes))

/-! The types that names are bound to. -/

theorem clean_annotated {binder : Binder}
    (placed : ∀ t, binder.type = some t → t.strays = false) :
    (annotated binder).value.Clean := by
  unfold annotated
  cases writtenType : binder.type with
  | none => exact .error _
  | some t =>
    cases error : t.contains .error with
    | true => simpa [written, error] using .error _
    | false =>
      simpa [written, error] using .inr (Ty.settled_iff.mpr ⟨error, placed t writtenType⟩)

theorem clean_annotations {binders : List Binder}
    (placed : ∀ t ∈ binders.filterMap (·.type), t.strays = false) :
    ∀ t ∈ (annotations binders).value, t.Clean := by
  rw [value_annotations, List.forall_mem_map]
  intro binder member
  exact clean_annotated fun t written => placed t (List.mem_filterMap.mpr ⟨binder, member, written⟩)

theorem clean_reconcile {form : BindingForm} {name : String} {anchor : Token} {declared got : Ty}
    (declaredClean : declared.Clean) (gotClean : got.Clean) :
    (reconcile form name anchor declared got).value.Clean := by
  unfold reconcile
  split
  · exact declaredClean
  split
  · exact gotClean
  split
  · exact declaredClean
  · repeat' split
    all_goals exact .error _

theorem clean_bindingType {binder : Binder} {anchor : Token} {got : Ty}
    (placed : ∀ t, binder.type = some t → t.strays = false) (gotClean : got.Clean) :
    (bindingType binder anchor got).value.Clean := by
  unfold bindingType
  split
  · exact gotClean
  · exact clean_reconcile (clean_annotated placed) gotClean

theorem clean_bindings (valid : o.problem? = none) {bound : List (Binder × Expr)}
    (placed : ∀ t ∈ Expr.writtenTypesBindings bound, t.strays = false)
    (clean : env.All Ty.Clean) : ∀ binding ∈ (bindings o env bound).value, binding.2.Clean := by
  induction bound with
  | nil => simp [bindings]
  | cons binding rest ih =>
    obtain ⟨binder, value⟩ := binding
    simp only [Expr.writtenTypesBindings, List.forall_mem_append] at placed
    obtain ⟨⟨typePlaced, valuePlaced⟩, restPlaced⟩ := placed
    rw [bindings_cons]
    refine List.forall_mem_cons.mpr ⟨clean_bindingType ?_ ?_, ih restPlaced⟩
    · exact fun t written => typePlaced t (by simp [written])
    · exact clean_expr valid valuePlaced clean

theorem cleanlyExtends_scope {binders : List Binder}
    (placed : ∀ t ∈ binders.filterMap (·.type), t.strays = false) :
    (scope env binders (annotations binders).value).CleanlyExtends env :=
  ⟨_, rfl, fun _ member => clean_annotations placed _ (List.of_mem_zip member).2⟩

/-! Calls. -/

/-- The calls that a call leads to at once add clean bindings at most, and nothing strays in the
types that are written in the parts. -/
theorem clean_parts (valid : o.problem? = none) (placed : ∀ t ∈ e.writtenTypes, t.strays = false)
    (clean : env.All Ty.Clean) :
    ∀ part ∈ Traced.parts o env e, (∀ t ∈ part.expr.writtenTypes, t.strays = false) ∧
      part.env.CleanlyExtends env := by
  have inner {es : List Expr} (placed : ∀ t ∈ Expr.writtenTypesAll es, t.strays = false) :
      ∀ part ∈ es.map (Visit.mk env), (∀ t ∈ part.expr.writtenTypes, t.strays = false) ∧
        part.env.CleanlyExtends env := by
    rw [List.forall_mem_map]
    exact fun e member => ⟨fun t written =>
      placed t (Expr.mem_writtenTypesAll.mpr ⟨e, member, written⟩), .refl env⟩
  cases e with
  | absent | number | string | bool | unit | broken | var | read => simp [Traced.parts]
  | add token addends => exact inner placed
  | unary token op operand | readFrom token operand =>
    simpa [Traced.parts] using ⟨placed, .refl env⟩
  | binary token op left right =>
    simp only [Expr.writtenTypes, List.forall_mem_append] at placed
    simpa [Traced.parts, Env.CleanlyExtends.refl] using placed
  | branch token cond yes no =>
    simp only [Expr.writtenTypes, List.forall_mem_append] at placed
    simpa [Traced.parts, Env.CleanlyExtends.refl, and_assoc] using placed
  | call token operator args =>
    simp only [Expr.writtenTypes, List.forall_mem_append] at placed
    exact List.forall_mem_cons.mpr ⟨⟨placed.1, .refl env⟩, inner placed.2⟩
  | list token elem elems =>
    simp only [Expr.writtenTypes, List.forall_mem_append] at placed
    exact inner placed.2
  | letIn token bound body =>
    simp only [Expr.writtenTypes, List.forall_mem_append] at placed
    rw [Traced.parts, List.forall_mem_append, List.forall_mem_map, List.forall_mem_singleton]
    refine ⟨fun binding member => ⟨fun t written => ?_, .refl env⟩, placed.2, _, rfl,
      clean_bindings valid placed.1 clean⟩
    exact placed.1 t (Expr.mem_writtenTypesBindings.mpr ⟨binding, member, .inr written⟩)
  | letrec token bound body =>
    simp only [Expr.writtenTypes, List.forall_mem_append] at placed
    have declared : ∀ t ∈ (bound.map (·.1)).filterMap (·.type), t.strays = false := by
      intro t member
      obtain ⟨_, binders, written⟩ := List.mem_filterMap.mp member
      obtain ⟨binding, bound, rfl⟩ := List.mem_map.mp binders
      exact placed.1 t (Expr.mem_writtenTypesBindings.mpr ⟨binding, bound, .inl written⟩)
    rw [Traced.parts, List.forall_mem_append, List.forall_mem_map, List.forall_mem_singleton]
    refine ⟨fun binding member => ⟨fun t written => ?_, cleanlyExtends_scope declared⟩, placed.2,
      cleanlyExtends_scope declared⟩
    exact placed.1 t (Expr.mem_writtenTypesBindings.mpr ⟨binding, member, .inr written⟩)
  | lambda token params body =>
    simp only [Expr.writtenTypes, List.forall_mem_append] at placed
    exact List.forall_mem_singleton.mpr ⟨placed.2, cleanlyExtends_scope placed.1⟩

/-- So do all calls that are made for an expression. -/
theorem clean_visits (valid : o.problem? = none) (placed : ∀ t ∈ e.writtenTypes, t.strays = false)
    (clean : env.All Ty.Clean) :
    ∀ visit ∈ (Traced.expr o env e).visits, (∀ t ∈ visit.expr.writtenTypes, t.strays = false) ∧
      visit.env.CleanlyExtends env := by
  refine @Traced.forall_visits o env (fun env' e =>
    (∀ t ∈ e.writtenTypes, t.strays = false) ∧ env'.CleanlyExtends env) ?_ e ⟨placed, .refl env⟩
  rintro env' e ⟨placed', grown⟩ part member
  obtain ⟨partPlaced, partGrown⟩ := clean_parts valid placed' (grown.all clean) part member
  exact ⟨partPlaced, partGrown.trans grown⟩

theorem clean_decl (valid : o.problem? = none) {d : Decl}
    (placed : ∀ t ∈ d.writtenTypes, t.strays = false) (clean : env.All Ty.Clean) :
    (decl o env d).value.1.Clean ∧ (decl o env d).value.2.CleanlyExtends env := by
  simp only [Decl.writtenTypes, List.forall_mem_append, Option.mem_toList] at placed
  obtain ⟨typePlaced, valuePlaced⟩ := placed
  unfold decl
  split
  next =>
    have found := clean_expr valid valuePlaced clean
    exact ⟨found, .extend found⟩
  next =>
    have declared := clean_annotated typePlaced
    refine ⟨clean_reconcile declared ?_, .extend declared⟩
    exact clean_expr valid valuePlaced (clean.extend declared)

/-- Clean environments stay clean. An expression that is checked in one has a clean type, and so
has every expression inside of it in the environment that it is checked in, which is clean again:
no error is buried in these types, and none is the bare placeholder. A definition leaves a clean
environment behind. -/
theorem stays_clean (valid : o.problem? = none) (clean : env.All Ty.Clean) :
    (∀ e : Expr, (∀ t ∈ e.writtenTypes, t.strays = false) →
      (expr o env e).value.Clean ∧
      (Traced.expr o env e).checked = expr o env e ∧
      (Traced.expr o env e).visits.map (·.expr) = e.subexprs ∧
      ∀ visit ∈ (Traced.expr o env e).visits,
        visit.env.CleanlyExtends env ∧ visit.env.All Ty.Clean ∧
        (expr o visit.env visit.expr).value.Clean ∧
        (expr o visit.env visit.expr).value.Tidy ∧
        (expr o visit.env visit.expr).value ≠ .unresolved) ∧
    ∀ d : Decl, (∀ t ∈ d.writtenTypes, t.strays = false) →
      (decl o env d).value.1.Clean ∧
      (decl o env d).value.2.CleanlyExtends env ∧ (decl o env d).value.2.All Ty.Clean := by
  refine ⟨fun e placed => ⟨clean_expr valid placed clean, Traced.checked_expr e,
    Traced.exprs_visits e, fun visit member => ?_⟩, fun d placed => ?_⟩
  · obtain ⟨visitPlaced, grown⟩ := clean_visits valid placed clean visit member
    have found := clean_expr valid visitPlaced (grown.all clean)
    exact ⟨grown, grown.all clean, found, found.tidy, found.ne_unresolved⟩
  · obtain ⟨found, grown⟩ := clean_decl valid placed clean
    exact ⟨found, grown, grown.all clean⟩

/-- Below a binding that is an error and a parameter whose elements are not known. -/
theorem stays_clean_below_erroneous_binding :
    let env := (Env.empty.extend "x" (.error "lost")).extend "y" (.list .unresolved)
    let inner : Expr := .list .nowhere none [.var .nowhere "y", .var .nowhere "z"]
    let e : Expr := .letIn .nowhere [(⟨.nowhere, "a", none⟩, .var .nowhere "x")]
      (.lambda .nowhere [⟨.nowhere, "z", some (.list .unresolved)⟩] inner)
    (expr .standard env e).value = .error "lost" ∧
    ∃ visit ∈ (Traced.expr .standard env e).visits, visit.expr = inner ∧
      visit.env.lookup? "a" = some (.error "lost") ∧ visit.env.All Ty.Clean ∧
      (expr .standard visit.env inner).value = .list (.list .unresolved) ∧
      (expr .standard visit.env inner).value.Clean := by
  intro env inner e
  have clean : env.All Ty.Clean := (Env.All.empty.extend (.error "lost")).extend (.inr .empty)
  have placed : ∀ t ∈ e.writtenTypes, t.strays = false := by
    simp [e, inner, Expr.writtenTypes, Expr.writtenTypesBindings, Expr.writtenTypesAll, Ty.strays,
      Ty.kind]
  obtain ⟨_, _, _, visits⟩ := (stays_clean (o := .standard) rfl clean).1 e placed
  have member : (⟨(env.extend "a" (.error "lost")).extend "z" (.list .unresolved), inner⟩ : Visit) ∈
      (Traced.expr .standard env e).visits := .tail _ (.tail _ (.tail _ (.head _)))
  obtain ⟨_, all, found, _⟩ := visits _ member
  exact ⟨rfl, _, member, rfl, rfl, all, rfl, found⟩

end Check

end TypedForms
