import Mathlib.Data.List.Forall2
import Mathlib.Order.Bounds.Basic
import TypedForms.Ty.Compatible

/-! Types ordered by how far they are resolved. An unresolved type is below every type, and the
other constructors are compared part by part. Two types are compatible exactly when they have an
upper bound in common, and their join is then the least one. -/
namespace TypedForms.Ty

/-- Induction over types; the parameters of a function are taken all at once. -/
@[elab_as_elim]
theorem induction {motive : Ty → Prop} (unresolved : motive .unresolved) (num : motive .num)
    (str : motive .str) (bool : motive .bool) (unit : motive .unit)
    (error : ∀ message, motive (.error message))
    (func : ∀ params result, (∀ param ∈ params, motive param) → motive result →
      motive (.func params result))
    (pair : ∀ left right, motive left → motive right → motive (.pair left right))
    (list : ∀ elem, motive elem → motive (.list elem))
    (ref : ∀ elem, motive elem → motive (.ref elem)) (t : Ty) : motive t := by
  refine @Ty.rec motive (fun ts => ∀ t ∈ ts, motive t)
    unresolved num str bool unit error func pair list ref ?_ ?_ t
  · intro t member
    contradiction
  · intro head tail first rest t member
    rcases List.mem_cons.mp member with rfl | member
    · exact first
    · exact rest t member

/-- The second type is the first one with some unresolved parts filled in. The messages of
errors do not count. -/
inductive ResolvesTo : Ty → Ty → Prop where
  | unresolved (t : Ty) : ResolvesTo .unresolved t
  | num : ResolvesTo .num .num
  | str : ResolvesTo .str .str
  | bool : ResolvesTo .bool .bool
  | unit : ResolvesTo .unit .unit
  | error (message message' : String) : ResolvesTo (.error message) (.error message')
  | func {params params' : List Ty} {result result' : Ty} :
      List.Forall₂ ResolvesTo params params' → ResolvesTo result result' →
      ResolvesTo (.func params result) (.func params' result')
  | pair {left left' right right' : Ty} : ResolvesTo left left' → ResolvesTo right right' →
      ResolvesTo (.pair left right) (.pair left' right')
  | list {elem elem' : Ty} : ResolvesTo elem elem' → ResolvesTo (.list elem) (.list elem')
  | ref {elem elem' : Ty} : ResolvesTo elem elem' → ResolvesTo (.ref elem) (.ref elem')

namespace ResolvesTo

theorem refl (t : Ty) : ResolvesTo t t := by
  induction t using Ty.induction with
  | unresolved => exact .unresolved _
  | num => exact .num
  | str => exact .str
  | bool => exact .bool
  | unit => exact .unit
  | error message => exact .error _ _
  | func params result ihParams ihResult =>
    exact .func (List.forall₂_same.mpr ihParams) ihResult
  | pair left right ihLeft ihRight => exact .pair ihLeft ihRight
  | list elem ih => exact .list ih
  | ref elem ih => exact .ref ih

private theorem trans_all {ts us vs : List Ty}
    (ih : ∀ t ∈ ts, ∀ u v, ResolvesTo t u → ResolvesTo u v → ResolvesTo t v)
    (first : List.Forall₂ ResolvesTo ts us) (second : List.Forall₂ ResolvesTo us vs) :
    List.Forall₂ ResolvesTo ts vs := by
  induction first generalizing vs with
  | nil => exact second
  | cons head _ rest =>
    cases second with
    | cons head' tail' =>
      refine .cons (ih _ List.mem_cons_self _ _ head head') (rest ?_ tail')
      exact fun t member => ih t (List.mem_cons_of_mem _ member)

theorem trans {t u v : Ty} (first : ResolvesTo t u) (second : ResolvesTo u v) :
    ResolvesTo t v := by
  induction t using Ty.induction generalizing u v with
  | unresolved => exact .unresolved _
  | num => cases first; exact second
  | str => cases first; exact second
  | bool => cases first; exact second
  | unit => cases first; exact second
  | error message =>
    cases first
    cases second
    exact .error _ _
  | func params result ihParams ihResult =>
    cases first with
    | func params₁ result₁ =>
      cases second with
      | func params₂ result₂ =>
        exact .func (trans_all (fun t member _ _ => ihParams t member) params₁ params₂)
          (ihResult result₁ result₂)
  | pair left right ihLeft ihRight =>
    cases first with
    | pair left₁ right₁ =>
      cases second with
      | pair left₂ right₂ => exact .pair (ihLeft left₁ left₂) (ihRight right₁ right₂)
  | list elem ih =>
    cases first with
    | list elem₁ => cases second with | list elem₂ => exact .list (ih elem₁ elem₂)
  | ref elem ih =>
    cases first with
    | ref elem₁ => cases second with | ref elem₂ => exact .ref (ih elem₁ elem₂)

end ResolvesTo

instance : Preorder Ty where
  le := ResolvesTo
  le_refl := ResolvesTo.refl
  le_trans _ _ _ := ResolvesTo.trans

instance : OrderBot Ty where
  bot := .unresolved
  bot_le := ResolvesTo.unresolved

theorem eq_unresolved_of_le {t : Ty} (le : t ≤ .unresolved) : t = .unresolved := by
  cases le
  rfl

/-! Errors in types. -/

/-- No error stands in the type, at any depth. -/
def ErrorFree (t : Ty) : Prop := t.contains .error = false

theorem isConcrete_iff {t : Ty} :
    t.isConcrete = true ↔ t.contains .error = false ∧ t.contains .unresolved = false := by
  simp [isConcrete]

theorem containsAny_eq_false_iff {kind : Kind} {ts : List Ty} :
    containsAny kind ts = false ↔ ∀ t ∈ ts, t.contains kind = false := by
  induction ts with
  | nil => simp [containsAny]
  | cons t ts ih => simp [containsAny, ih]

namespace ErrorFree

@[simp] theorem unresolved : ErrorFree .unresolved := rfl

@[simp] theorem num : ErrorFree .num := rfl

@[simp] theorem str : ErrorFree .str := rfl

@[simp] theorem bool : ErrorFree .bool := rfl

@[simp] theorem unit : ErrorFree .unit := rfl

@[simp] theorem not_error (message : String) : ¬ ErrorFree (.error message) := by
  simp [ErrorFree, contains]

@[simp] theorem func_iff {params : List Ty} {result : Ty} :
    ErrorFree (.func params result) ↔ (∀ t ∈ params, ErrorFree t) ∧ ErrorFree result := by
  simp [ErrorFree, contains, containsAny_eq_false_iff]

@[simp] theorem pair_iff {left right : Ty} :
    ErrorFree (.pair left right) ↔ ErrorFree left ∧ ErrorFree right := by
  simp [ErrorFree, contains]

@[simp] theorem list_iff {elem : Ty} : ErrorFree (.list elem) ↔ ErrorFree elem := by
  simp [ErrorFree, contains]

@[simp] theorem ref_iff {elem : Ty} : ErrorFree (.ref elem) ↔ ErrorFree elem := by
  simp [ErrorFree, contains]

theorem isError_eq_false {t : Ty} (free : ErrorFree t) : t.isError = false := by
  cases t with
  | error message => exact absurd free (not_error message)
  | _ => rfl

private theorem eq_of_le_all {ts us : List Ty}
    (ih : ∀ t ∈ ts, ∀ u, t ≤ u → u ≤ t → ErrorFree t → t = u)
    (le : List.Forall₂ ResolvesTo ts us) (ge : List.Forall₂ ResolvesTo us ts)
    (free : ∀ t ∈ ts, ErrorFree t) : ts = us := by
  induction le with
  | nil => rfl
  | cons head _ rest =>
    cases ge with
    | cons head' tail' =>
      rw [ih _ List.mem_cons_self _ head head' (free _ List.mem_cons_self),
        rest (fun t member => ih t (List.mem_cons_of_mem _ member)) tail'
          (fun t member => free t (List.mem_cons_of_mem _ member))]

/-- Without errors, types that are below each other are equal. -/
theorem eq_of_le_of_ge {t u : Ty} (le : t ≤ u) (ge : u ≤ t) (free : ErrorFree t) : t = u := by
  induction t using Ty.induction generalizing u with
  | unresolved => exact (eq_unresolved_of_le ge).symm
  | num => cases le; rfl
  | str => cases le; rfl
  | bool => cases le; rfl
  | unit => cases le; rfl
  | error message => simp at free
  | func params result ihParams ihResult =>
    cases le with
    | func paramsLe resultLe =>
      cases ge with
      | func paramsGe resultGe =>
        rw [func_iff] at free
        rw [eq_of_le_all (fun t member _ => ihParams t member) paramsLe paramsGe free.1,
          ihResult resultLe resultGe free.2]
  | pair left right ihLeft ihRight =>
    cases le with
    | pair leftLe rightLe =>
      cases ge with
      | pair leftGe rightGe =>
        rw [pair_iff] at free
        rw [ihLeft leftLe leftGe free.1, ihRight rightLe rightGe free.2]
  | list elem ih =>
    cases le with
    | list elemLe =>
      cases ge with
      | list elemGe => rw [ih elemLe elemGe (list_iff.mp free)]
  | ref elem ih =>
    cases le with
    | ref elemLe =>
      cases ge with
      | ref elemGe => rw [ih elemLe elemGe (ref_iff.mp free)]

/-- Least upper bounds without errors are unique. -/
theorem eq_of_isLUB {bound : Set Ty} {t u : Ty} (free : ErrorFree t) (left : IsLUB bound t)
    (right : IsLUB bound u) : t = u :=
  free.eq_of_le_of_ge (left.2 right.1) (right.2 left.1)

end ErrorFree

end TypedForms.Ty
