import TypedForms.Proofs.Ty.Join

/-! Forgetting the element types of lists. A type with element types forgotten is below the type
it comes from, and the converse holds where unresolved parts only stand for element types. Joins
may bring more of a type to light inside the elements of a list, so that what is kept by a join
in any case is the part of a type outside of lists. -/
namespace TypedForms.Ty

/-- The first type is the second one with the element types of some lists in it, at any depth,
left unresolved. -/
inductive Forgets : Ty → Ty → Prop where
  | unresolved : Forgets .unresolved .unresolved
  | num : Forgets .num .num
  | str : Forgets .str .str
  | bool : Forgets .bool .bool
  | unit : Forgets .unit .unit
  | error (message : String) : Forgets (.error message) (.error message)
  | func {params params' : List Ty} {result result' : Ty} :
      List.Forall₂ Forgets params params' → Forgets result result' →
      Forgets (.func params result) (.func params' result')
  | pair {left left' right right' : Ty} : Forgets left left' → Forgets right right' →
      Forgets (.pair left right) (.pair left' right')
  | list {elem elem' : Ty} : Forgets elem elem' → Forgets (.list elem) (.list elem')
  | ref {elem elem' : Ty} : Forgets elem elem' → Forgets (.ref elem) (.ref elem')
  | forgotten (elem : Ty) : Forgets (.list .unresolved) (.list elem)

/-- The two types are the same outside of lists, and the elements of lists are resolved less far
in the first one. -/
inductive Blurs : Ty → Ty → Prop where
  | unresolved : Blurs .unresolved .unresolved
  | num : Blurs .num .num
  | str : Blurs .str .str
  | bool : Blurs .bool .bool
  | unit : Blurs .unit .unit
  | error (message : String) : Blurs (.error message) (.error message)
  | func {params params' : List Ty} {result result' : Ty} :
      List.Forall₂ Blurs params params' → Blurs result result' →
      Blurs (.func params result) (.func params' result')
  | pair {left left' right right' : Ty} : Blurs left left' → Blurs right right' →
      Blurs (.pair left right) (.pair left' right')
  | list {elem elem' : Ty} : elem ≤ elem' → Blurs (.list elem) (.list elem')
  | ref {elem elem' : Ty} : Blurs elem elem' → Blurs (.ref elem) (.ref elem')

/-- A relation on lists is weakened element by element. -/
private theorem forall₂_of_mem {α : Type} {related related' : α → α → Prop} {as bs : List α}
    (weaker : ∀ a ∈ as, ∀ b, related a b → related' a b) (all : List.Forall₂ related as bs) :
    List.Forall₂ related' as bs := by
  have both := (List.forall₂_and_left as bs).mpr ⟨weaker, all⟩
  exact both.imp fun a b step => step.1 b step.2

namespace Blurs

theorem refl (t : Ty) : Blurs t t := by
  induction t using Ty.induction with
  | unresolved => exact .unresolved
  | num => exact .num
  | str => exact .str
  | bool => exact .bool
  | unit => exact .unit
  | error message => exact .error message
  | func params result ihParams ihResult =>
    exact .func (List.forall₂_same.mpr ihParams) ihResult
  | pair left right ihLeft ihRight => exact .pair ihLeft ihRight
  | list elem _ => exact .list le_rfl
  | ref elem ih => exact .ref ih

theorem le {t u : Ty} (blurs : Blurs t u) : t ≤ u := by
  induction t using Ty.induction generalizing u with
  | unresolved | num | str | bool | unit | error => cases blurs; exact le_rfl
  | func params result ihParams ihResult =>
    cases blurs with
    | func paramsBlur resultBlurs =>
      exact .func (forall₂_of_mem (fun t member _ => ihParams t member) paramsBlur)
        (ihResult resultBlurs)
  | pair left right ihLeft ihRight =>
    cases blurs with
    | pair leftBlurs rightBlurs => exact .pair (ihLeft leftBlurs) (ihRight rightBlurs)
  | list elem _ => cases blurs with | list elemLe => exact .list elemLe
  | ref elem ih => cases blurs with | ref elemBlurs => exact .ref (ih elemBlurs)

private theorem joinParams? {ts us ts' us' js js' : List Ty}
    (ih : ∀ t ∈ ts, ∀ u t' u' j j', Blurs t' t → Blurs u' u → t.compatible u = true →
      t.join? u = some j → t'.join? u' = some j' → Blurs j' j)
    (left : List.Forall₂ Blurs ts' ts) (right : List.Forall₂ Blurs us' us)
    (compatible : compatibleAll ts us = true) (joined : joinParams? ts us = some js)
    (joined' : Ty.joinParams? ts' us' = some js') : List.Forall₂ Blurs js' js := by
  induction left generalizing us us' js js' with
  | nil =>
    simp only [Ty.joinParams?, Option.some.injEq] at joined joined'
    subst joined joined'
    exact .nil
  | cons head _ rest =>
    cases right with
    | nil => simp [compatibleAll] at compatible
    | cons head' tail' =>
      simp only [Ty.joinParams?, Option.bind_eq_bind, Option.bind_eq_some_iff,
        Option.some.injEq] at joined joined'
      obtain ⟨j, first, others, joinedAll, rfl⟩ := joined
      obtain ⟨j', first', others', joinedAll', rfl⟩ := joined'
      simp only [compatibleAll, Bool.and_eq_true] at compatible
      refine .cons (ih _ List.mem_cons_self _ _ _ _ _ head head' compatible.1 first first') ?_
      exact rest (fun t member => ih t (List.mem_cons_of_mem _ member)) tail' compatible.2
        joinedAll joinedAll'

/-- Outside of lists a join of blurred types is the join of the types they come from. -/
theorem join? {t u t' u' j j' : Ty} (left : Blurs t' t) (right : Blurs u' u)
    (compatible : t.compatible u = true) (joined : t.join? u = some j)
    (joined' : t'.join? u' = some j') : Blurs j' j := by
  induction t using Ty.induction generalizing u t' u' j j' with
  | unresolved =>
    cases left
    simp only [Ty.join?, Option.some.injEq] at joined joined'
    exact joined ▸ joined' ▸ right
  | num | str | bool | unit | error =>
    cases left
    cases right <;> simp only [Ty.join?, Option.some.injEq] at joined joined' <;>
      exact joined ▸ joined' ▸ refl _
  | func params result ihParams ihResult =>
    cases left with | func paramsBlur resultBlurs =>
    cases right with
    | unresolved =>
      rw [join?_unresolved, Option.some.injEq] at joined joined'
      exact joined ▸ joined' ▸ .func paramsBlur resultBlurs
    | func paramsBlur' resultBlurs' =>
      simp only [Ty.compatible, Bool.and_eq_true] at compatible
      simp only [Ty.join?, Option.bind_eq_bind, Option.bind_eq_some_iff,
        Option.some.injEq] at joined joined'
      obtain ⟨js, joinedAll, k, found, rfl⟩ := joined
      obtain ⟨js', joinedAll', k', found', rfl⟩ := joined'
      exact .func (joinParams? (fun t member _ _ _ _ _ => ihParams t member) paramsBlur
        paramsBlur' compatible.1 joinedAll joinedAll')
        (ihResult resultBlurs resultBlurs' compatible.2 found found')
    | _ => simp [Ty.compatible] at compatible
  | pair first second ihFirst ihSecond =>
    cases left with | pair firstBlurs secondBlurs =>
    cases right with
    | unresolved =>
      rw [join?_unresolved, Option.some.injEq] at joined joined'
      exact joined ▸ joined' ▸ .pair firstBlurs secondBlurs
    | pair firstBlurs' secondBlurs' =>
      simp only [Ty.compatible, Bool.and_eq_true] at compatible
      simp only [Ty.join?, Option.bind_eq_bind, Option.bind_eq_some_iff,
        Option.some.injEq] at joined joined'
      obtain ⟨k, found, l, found₂, rfl⟩ := joined
      obtain ⟨k', found', l', found₂', rfl⟩ := joined'
      exact .pair (ihFirst firstBlurs firstBlurs' compatible.1 found found')
        (ihSecond secondBlurs secondBlurs' compatible.2 found₂ found₂')
    | _ => simp [Ty.compatible] at compatible
  | list elem _ =>
    cases left with | list elemLe =>
    cases right with
    | unresolved =>
      rw [join?_unresolved, Option.some.injEq] at joined joined'
      exact joined ▸ joined' ▸ .list elemLe
    | list elemLe' =>
      simp only [Ty.join?, Option.map_eq_some_iff] at joined joined'
      obtain ⟨k, found, rfl⟩ := joined
      obtain ⟨k', found', rfl⟩ := joined'
      exact .list (join?_mono elemLe elemLe' (by simpa [Ty.compatible] using compatible) found
        found')
    | _ => simp [Ty.compatible] at compatible
  | ref elem ih =>
    cases left with | ref elemBlurs =>
    cases right with
    | unresolved =>
      rw [join?_unresolved, Option.some.injEq] at joined joined'
      exact joined ▸ joined' ▸ .ref elemBlurs
    | ref elemBlurs' =>
      simp only [Ty.join?, Option.map_eq_some_iff] at joined joined'
      obtain ⟨k, found, rfl⟩ := joined
      obtain ⟨k', found', rfl⟩ := joined'
      exact .ref (ih elemBlurs elemBlurs' (by simpa [Ty.compatible] using compatible) found
        found')
    | _ => simp [Ty.compatible] at compatible

end Blurs

theorem Forgets.blurs {t u : Ty} (forgets : Forgets t u) : Blurs t u := by
  induction t using Ty.induction generalizing u with
  | unresolved | num | str | bool | unit | error => cases forgets; exact .refl _
  | func params result ihParams ihResult =>
    cases forgets with
    | func paramsForget resultForgets =>
      exact .func (forall₂_of_mem (fun t member _ => ihParams t member) paramsForget)
        (ihResult resultForgets)
  | pair left right ihLeft ihRight =>
    cases forgets with
    | pair leftForgets rightForgets => exact .pair (ihLeft leftForgets) (ihRight rightForgets)
  | list elem ih =>
    cases forgets with
    | list elemForgets => exact .list (ih elemForgets).le
    | forgotten => exact .list (.unresolved _)
  | ref elem ih => cases forgets with | ref elemForgets => exact .ref (ih elemForgets)

/-! Settled types. -/

/-- A type without errors in which an unresolved part is always the element type of a list. -/
inductive Settled : Ty → Prop where
  | num : Settled .num
  | str : Settled .str
  | bool : Settled .bool
  | unit : Settled .unit
  | func {params : List Ty} {result : Ty} : (∀ param ∈ params, Settled param) → Settled result →
      Settled (.func params result)
  | pair {left right : Ty} : Settled left → Settled right → Settled (.pair left right)
  | list {elem : Ty} : Settled elem → Settled (.list elem)
  | empty : Settled (.list .unresolved)
  | ref {elem : Ty} : Settled elem → Settled (.ref elem)

namespace Settled

/-- A settled type is below a type only by what it has forgotten. -/
theorem forgets_of_le {t u : Ty} (settled : Settled t) (le : t ≤ u) : Forgets t u := by
  induction settled generalizing u with
  | num => cases le; exact .num
  | str => cases le; exact .str
  | bool => cases le; exact .bool
  | unit => cases le; exact .unit
  | func _ _ ihParams ihResult =>
    cases le with
    | func paramsLe resultLe =>
      exact .func (forall₂_of_mem (fun t member _ => ihParams t member) paramsLe)
        (ihResult resultLe)
  | pair _ _ ihLeft ihRight =>
    cases le with | pair leftLe rightLe => exact .pair (ihLeft leftLe) (ihRight rightLe)
  | list _ ih => cases le with | list elemLe => exact .list (ih elemLe)
  | empty => cases le with | list elemLe => exact .forgotten _
  | ref _ ih => cases le with | ref elemLe => exact .ref (ih elemLe)

private theorem of_forall₂ {ts us : List Ty}
    (ih : ∀ u ∈ us, ∀ t, Forgets t u → Settled t) (all : List.Forall₂ Forgets ts us) :
    ∀ t ∈ ts, Settled t := by
  induction all with
  | nil => simp
  | cons head _ rest =>
    refine List.forall_mem_cons.mpr ⟨ih _ List.mem_cons_self _ head, rest ?_⟩
    exact fun u member => ih u (List.mem_cons_of_mem _ member)

/-- Forgetting leaves a type settled. -/
theorem of_forgets {t u : Ty} (settled : Settled u) (forgets : Forgets t u) : Settled t := by
  induction settled generalizing t with
  | num => cases forgets; exact .num
  | str => cases forgets; exact .str
  | bool => cases forgets; exact .bool
  | unit => cases forgets; exact .unit
  | func _ _ ihParams ihResult =>
    cases forgets with
    | func paramsForget resultForgets =>
      exact .func (of_forall₂ (fun t member _ => ihParams t member) paramsForget)
        (ihResult resultForgets)
  | pair _ _ ihLeft ihRight =>
    cases forgets with
    | pair leftForgets rightForgets => exact .pair (ihLeft leftForgets) (ihRight rightForgets)
  | list _ ih =>
    cases forgets with
    | list elemForgets => exact .list (ih elemForgets)
    | forgotten => exact .empty
  | empty =>
    cases forgets with
    | list elemForgets => cases elemForgets; exact .empty
    | forgotten => exact .empty
  | ref _ ih => cases forgets with | ref elemForgets => exact .ref (ih elemForgets)

private theorem joinParams? {ts us js : List Ty}
    (ih : ∀ t ∈ ts, ∀ u j, Settled u → t.join? u = some j → Settled j)
    (right : ∀ u ∈ us, Settled u) (joined : joinParams? ts us = some js) : ∀ j ∈ js, Settled j := by
  induction ts generalizing us js with
  | nil =>
    simp only [Ty.joinParams?, Option.some.injEq] at joined
    simp [← joined]
  | cons t ts rest =>
    cases us with
    | nil => simp [Ty.joinParams?] at joined
    | cons u us =>
      simp only [Ty.joinParams?, Option.bind_eq_bind, Option.bind_eq_some_iff,
        Option.some.injEq] at joined
      obtain ⟨j, first, others, joinedAll, rfl⟩ := joined
      have uSettled := right u List.mem_cons_self
      refine List.forall_mem_cons.mpr ⟨ih t List.mem_cons_self u j uSettled first, ?_⟩
      exact rest (fun t member => ih t (List.mem_cons_of_mem _ member))
        (fun u member => right u (List.mem_cons_of_mem _ member)) joinedAll

/-- The join of settled types is settled. -/
theorem join? {t u j : Ty} (left : Settled t) (right : Settled u) (joined : t.join? u = some j) :
    Settled j := by
  induction left generalizing u j with
  | num | str | bool | unit =>
    cases right <;> simp only [Ty.join?, Option.some.injEq] at joined <;> subst joined <;>
      constructor
  | func _ _ ihParams ihResult =>
    cases right with
    | func paramsSettled resultSettled =>
      simp only [Ty.join?, Option.bind_eq_bind, Option.bind_eq_some_iff,
        Option.some.injEq] at joined
      obtain ⟨js, joinedAll, k, found, rfl⟩ := joined
      exact .func (joinParams? (fun t member _ _ => ihParams t member) paramsSettled joinedAll)
        (ihResult resultSettled found)
    | _ => simp [Ty.join?] at joined
  | pair _ _ ihLeft ihRight =>
    cases right with
    | pair leftSettled rightSettled =>
      simp only [Ty.join?, Option.bind_eq_bind, Option.bind_eq_some_iff,
        Option.some.injEq] at joined
      obtain ⟨k, found, l, found', rfl⟩ := joined
      exact .pair (ihLeft leftSettled found) (ihRight rightSettled found')
    | _ => simp [Ty.join?] at joined
  | list elemSettled ih =>
    cases right with
    | list elemSettled' =>
      simp only [Ty.join?, Option.map_eq_some_iff] at joined
      obtain ⟨k, found, rfl⟩ := joined
      exact .list (ih elemSettled' found)
    | empty =>
      simp only [Ty.join?, join?_unresolved, Option.map_some, Option.some.injEq] at joined
      exact joined ▸ .list elemSettled
    | _ => simp [Ty.join?] at joined
  | empty =>
    cases right with
    | list elemSettled =>
      simp only [Ty.join?, Option.map_some, Option.some.injEq] at joined
      exact joined ▸ .list elemSettled
    | empty =>
      simp only [Ty.join?, Option.map_some, Option.some.injEq] at joined
      exact joined ▸ .empty
    | _ => simp [Ty.join?] at joined
  | ref elemSettled ih =>
    cases right with
    | ref elemSettled' =>
      simp only [Ty.join?, Option.map_eq_some_iff] at joined
      obtain ⟨k, found, rfl⟩ := joined
      exact .ref (ih elemSettled' found)
    | _ => simp [Ty.join?] at joined

end Settled

/-- An error by itself, or a settled type. -/
def Clean (t : Ty) : Prop := t.isError = true ∨ t.Settled

end TypedForms.Ty
