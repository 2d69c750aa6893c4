import Mathlib.Data.Finset.Lattice.Lemmas
import Mathlib.Data.List.Perm.Basic
import TypedForms.Proofs.Expr.Scope
import TypedForms.TypeError

/-! Flaws: what is wrong with an expression before any type is looked at. A name may have no
binding, an expression may be broken, and a written type may be invalid or missing. To find flaws it
is enough to know which names are bound. -/
namespace TypedForms

/-- The name that has no binding, if that is the problem. -/
def TypeError.unboundName? : TypeError → Option String
  | .unbound name => some name
  | _ => none

/-- The flaw of a written type, which is one with an error in it. -/
def Ty.flaws (anchor : Token) : Option Ty → List (Diagnostic TypeError)
  | none => []
  | some t => if t.contains .error then [⟨anchor, .invalidType t⟩] else []

/-- The flaw of a name that must have a written type. -/
def Binder.flaws (b : Binder) : List (Diagnostic TypeError) :=
  match b.type with
  | none => [⟨b.token, .untyped b.name⟩]
  | some t => Ty.flaws b.token (some t)

namespace Expr

open scoped List

mutual

/-- The flaws of an expression where only those names are bound. The types of names that see each
other come before their values, and so do the types of parameters and elements. -/
def flaws (bound : Finset String) : Expr → List (Diagnostic TypeError)
  | .absent | .number .. | .string .. | .bool .. | .unit _ | .read _ => []
  | .broken token message => [⟨token, .broken message⟩]
  | .var token name => if name ∈ bound then [] else [⟨token, .unbound name⟩]
  | .add _ operands => flawsAll bound operands
  | .binary _ _ left right => flaws bound left ++ flaws bound right
  | .unary _ _ operand => flaws bound operand
  | .branch _ cond yes no => flaws bound cond ++ flaws bound yes ++ flaws bound no
  | .letIn _ bindings body =>
    flawsBindings bound bindings ++ flaws (bound ∪ (bindings.map (·.1.name)).toFinset) body
  | .letrec _ bindings body =>
    bindings.flatMap (·.1.flaws) ++
      flawsValues (bound ∪ (bindings.map (·.1.name)).toFinset) bindings ++
      flaws (bound ∪ (bindings.map (·.1.name)).toFinset) body
  | .lambda _ params body =>
    params.flatMap Binder.flaws ++ flaws (bound ∪ (params.map (·.name)).toFinset) body
  | .call _ operator args => flaws bound operator ++ flawsAll bound args
  | .list token elem elems => Ty.flaws token elem ++ flawsAll bound elems
  | .readFrom _ source => flaws bound source

def flawsAll (bound : Finset String) : List Expr → List (Diagnostic TypeError)
  | [] => []
  | e :: es => flaws bound e ++ flawsAll bound es

/-- The flaws of bindings that do not see each other: of each value, and then of its type. -/
def flawsBindings (bound : Finset String) : List (Binder × Expr) → List (Diagnostic TypeError)
  | [] => []
  | (binder, value) :: rest =>
    flaws bound value ++ Ty.flaws binder.token binder.type ++ flawsBindings bound rest

def flawsValues (bound : Finset String) : List (Binder × Expr) → List (Diagnostic TypeError)
  | [] => []
  | (_, value) :: rest => flaws bound value ++ flawsValues bound rest

end

variable {bound : Finset String} {es : List Expr} {bindings : List (Binder × Expr)}

theorem flawsAll_eq : flawsAll bound es = es.flatMap (flaws bound) := by
  induction es with
  | nil => rfl
  | cons e es ih => rw [flawsAll, ih, List.flatMap_cons]

theorem flawsBindings_eq : flawsBindings bound bindings =
    bindings.flatMap fun b => b.2.flaws bound ++ Ty.flaws b.1.token b.1.type := by
  induction bindings with
  | nil => rfl
  | cons binding rest ih => rw [flawsBindings, ih, List.flatMap_cons]

theorem flawsValues_eq : flawsValues bound bindings = bindings.flatMap (·.2.flaws bound) := by
  induction bindings with
  | nil => rfl
  | cons binding rest ih => rw [flawsValues, ih, List.flatMap_cons]

/-! Unbound names. -/

theorem filterMap_unboundName?_ty {anchor : Token} {t : Option Ty} :
    (Ty.flaws anchor t).filterMap (·.cause.unboundName?) = [] := by
  cases t with
  | none => rfl
  | some t =>
    rw [Ty.flaws]
    split <;> rfl

theorem filterMap_unboundName?_binder {b : Binder} :
    b.flaws.filterMap (·.cause.unboundName?) = [] := by
  unfold Binder.flaws
  split
  · rfl
  · exact filterMap_unboundName?_ty

/-- Leaving out names that are bound inside, and then those bound outside, is leaving out both. -/
theorem filter_notMem_union {names used : List String} :
    used.filter (· ∉ bound ∪ names.toFinset) =
      (used.filter fun name => !names.contains name).filter (· ∉ bound) := by
  rw [List.filter_filter]
  refine List.filter_congr fun name _ => ?_
  simp [not_or]

/-- The names without a binding are the free ones that are not bound, each as often as it occurs. -/
theorem filterMap_unboundName?_flaws (e : Expr) :
    (e.flaws bound).filterMap (·.cause.unboundName?) = e.freeNames.filter (· ∉ bound) := by
  induction e using Expr.induction generalizing bound with
  | absent | number | string | bool | unit | broken | read => rfl
  | var token name =>
    rw [flaws, freeNames]
    by_cases known : name ∈ bound <;> simp [known, TypeError.unboundName?]
  | add token operands ih =>
    rw [flaws, freeNames, flawsAll_eq, freeNamesAll_eq, List.filterMap_flatMap, List.filter_flatMap]
    exact List.flatMap_congr fun e member => ih e member
  | binary token op left right ihLeft ihRight =>
    rw [flaws, freeNames, List.filterMap_append, List.filter_append, ihLeft, ihRight]
  | unary token op operand ih => exact ih
  | branch token cond yes no ihCond ihYes ihNo =>
    simp only [flaws, freeNames, List.filterMap_append, List.filter_append, ihCond, ihYes, ihNo]
  | letIn token bindings body ihBindings ihBody =>
    have values : (flawsBindings bound bindings).filterMap (·.cause.unboundName?) =
        (freeNamesValues bindings).filter (· ∉ bound) := by
      rw [flawsBindings_eq, freeNamesValues_eq, List.filterMap_flatMap, List.filter_flatMap]
      refine List.flatMap_congr fun binding member => ?_
      rw [List.filterMap_append, filterMap_unboundName?_ty, List.append_nil,
        ihBindings binding member]
    rw [flaws, freeNames, List.filterMap_append, List.filter_append, values, ihBody,
      filter_notMem_union]
  | letrec token bindings body ihBindings ihBody =>
    have types : (bindings.flatMap (·.1.flaws)).filterMap (·.cause.unboundName?) = [] := by
      rw [List.filterMap_flatMap, List.flatMap_eq_nil_iff]
      exact fun binding _ => filterMap_unboundName?_binder
    have values : ∀ inner, (flawsValues inner bindings).filterMap (·.cause.unboundName?) =
        (freeNamesValues bindings).filter (· ∉ inner) := by
      intro inner
      rw [flawsValues_eq, freeNamesValues_eq, List.filterMap_flatMap, List.filter_flatMap]
      exact List.flatMap_congr fun binding member => ihBindings binding member
    rw [flaws, freeNames, List.filterMap_append, List.filterMap_append, types, values, ihBody,
      List.nil_append, ← List.filter_append, filter_notMem_union]
  | lambda token params body ih =>
    have types : (params.flatMap Binder.flaws).filterMap (·.cause.unboundName?) = [] := by
      rw [List.filterMap_flatMap, List.flatMap_eq_nil_iff]
      exact fun param _ => filterMap_unboundName?_binder
    rw [flaws, freeNames, List.filterMap_append, types, ih, List.nil_append, filter_notMem_union]
  | call token operator args ihOperator ihArgs =>
    rw [flaws, freeNames, List.filterMap_append, List.filter_append, ihOperator, flawsAll_eq,
      freeNamesAll_eq, List.filterMap_flatMap, List.filter_flatMap]
    exact congrArg _ (List.flatMap_congr fun e member => ihArgs e member)
  | list token elem elems ih =>
    rw [flaws, freeNames, List.filterMap_append, filterMap_unboundName?_ty, List.nil_append,
      flawsAll_eq, freeNamesAll_eq, List.filterMap_flatMap, List.filter_flatMap]
    exact List.flatMap_congr fun e member => ih e member
  | readFrom token source ih => exact ih

/-! Malformed expressions. -/

/-- The flaws in the form of an expression, those of the expressions inside of it apart. -/
def ownFlaws : Expr → List (Diagnostic TypeError)
  | .broken token message => [⟨token, .broken message⟩]
  | .letIn _ bindings _ => bindings.flatMap fun b => Ty.flaws b.1.token b.1.type
  | .letrec _ bindings _ => bindings.flatMap (·.1.flaws)
  | .lambda _ params _ => params.flatMap Binder.flaws
  | .list token elem _ => Ty.flaws token elem
  | _ => []

/-- The notes about the form of expressions. -/
def formNotes (notes : List (Diagnostic TypeError)) : List (Diagnostic TypeError) :=
  notes.filter (·.cause.category == .malformed)

theorem formNotes_append {first second : List (Diagnostic TypeError)} :
    formNotes (first ++ second) = formNotes first ++ formNotes second := List.filter_append ..

theorem formNotes_flatMap {α : Type} {parts : List α} {notes : α → List (Diagnostic TypeError)} :
    formNotes (parts.flatMap notes) = parts.flatMap fun part => formNotes (notes part) :=
  List.filter_flatMap

theorem formNotes_ty {anchor : Token} {t : Option Ty} :
    formNotes (Ty.flaws anchor t) = Ty.flaws anchor t := by
  cases t with
  | none => rfl
  | some t =>
    rw [Ty.flaws]
    split <;> rfl

theorem formNotes_binder {b : Binder} : formNotes b.flaws = b.flaws := by
  unfold Binder.flaws
  split
  · rfl
  · exact formNotes_ty

theorem formNotes_flawsAll_perm
    (each : ∀ e ∈ es, (formNotes (e.flaws bound)).Perm (e.subexprs.flatMap ownFlaws)) :
    (formNotes (flawsAll bound es)).Perm ((subexprsAll es).flatMap ownFlaws) := by
  rw [flawsAll_eq, formNotes_flatMap, subexprsAll_eq, List.flatMap_assoc]
  exact .flatMap_left _ each

theorem formNotes_flawsValues_perm
    (each : ∀ b ∈ bindings, (formNotes (b.2.flaws bound)).Perm (b.2.subexprs.flatMap ownFlaws)) :
    (formNotes (flawsValues bound bindings)).Perm ((subexprsValues bindings).flatMap ownFlaws) := by
  rw [flawsValues_eq, formNotes_flatMap, subexprsValues_eq, List.flatMap_assoc]
  exact .flatMap_left _ each

/-- The flaws of types, which stand between those of values, are taken out in front of them. -/
theorem formNotes_flawsBindings_perm
    (each : ∀ b ∈ bindings, (formNotes (b.2.flaws bound)).Perm (b.2.subexprs.flatMap ownFlaws)) :
    (formNotes (flawsBindings bound bindings)).Perm
      ((bindings.flatMap fun b => Ty.flaws b.1.token b.1.type) ++
        (subexprsValues bindings).flatMap ownFlaws) := by
  have values := formNotes_flawsValues_perm each
  rw [flawsValues_eq, formNotes_flatMap] at values
  calc formNotes (flawsBindings bound bindings)
    _ = bindings.flatMap fun b => formNotes (b.2.flaws bound) ++ Ty.flaws b.1.token b.1.type := by
        rw [flawsBindings_eq, formNotes_flatMap]
        simp only [formNotes_append, formNotes_ty]
    _ ~ (bindings.flatMap fun b => formNotes (b.2.flaws bound)) ++
          bindings.flatMap fun b => Ty.flaws b.1.token b.1.type :=
        (List.flatMap_append_perm ..).symm
    _ ~ (bindings.flatMap fun b => Ty.flaws b.1.token b.1.type) ++
          bindings.flatMap fun b => formNotes (b.2.flaws bound) := List.perm_append_comm
    _ ~ _ := values.append_left _

/-- What is malformed in an expression is a flaw of exactly one of the expressions inside of it, and
is found once. -/
theorem formNotes_flaws_perm (e : Expr) :
    (formNotes (e.flaws bound)).Perm (e.subexprs.flatMap ownFlaws) := by
  induction e using Expr.induction generalizing bound with
  | absent | number | string | bool | unit | broken | read => exact .refl _
  | var token name =>
    rw [flaws]
    split <;> exact .refl _
  | add token operands ih => exact formNotes_flawsAll_perm fun e member => ih e member
  | binary token op left right ihLeft ihRight =>
    rw [flaws, subexprs, formNotes_append, List.flatMap_cons, List.flatMap_append]
    exact ihLeft.append ihRight
  | unary token op operand ih => exact ih
  | branch token cond yes no ihCond ihYes ihNo =>
    rw [flaws, subexprs, formNotes_append, formNotes_append, List.flatMap_cons,
      List.flatMap_append, List.flatMap_append]
    exact (ihCond.append ihYes).append ihNo
  | letIn token bindings body ihBindings ihBody =>
    have values := formNotes_flawsBindings_perm fun b member => @ihBindings b member bound
    rw [flaws, subexprs, formNotes_append, List.flatMap_cons, List.flatMap_append,
      ← List.append_assoc]
    exact values.append ihBody
  | letrec token bindings body ihBindings ihBody =>
    have types : formNotes (bindings.flatMap (·.1.flaws)) = bindings.flatMap (·.1.flaws) := by
      simp only [formNotes_flatMap, formNotes_binder]
    rw [flaws, subexprs, formNotes_append, formNotes_append, types, List.flatMap_cons,
      List.flatMap_append, List.append_assoc]
    exact .append_left _
      ((formNotes_flawsValues_perm fun b member => ihBindings b member).append ihBody)
  | lambda token params body ih =>
    have types : formNotes (params.flatMap Binder.flaws) = params.flatMap Binder.flaws := by
      simp only [formNotes_flatMap, formNotes_binder]
    rw [flaws, subexprs, formNotes_append, types, List.flatMap_cons]
    exact .append_left _ ih
  | call token operator args ihOperator ihArgs =>
    rw [flaws, subexprs, formNotes_append, List.flatMap_cons, List.flatMap_append]
    exact ihOperator.append (formNotes_flawsAll_perm fun e member => ihArgs e member)
  | list token elem elems ih =>
    rw [flaws, subexprs, formNotes_append, formNotes_ty, List.flatMap_cons]
    exact .append_left _ (formNotes_flawsAll_perm fun e member => ih e member)
  | readFrom token source ih => exact ih

end Expr

end TypedForms
