import TypedForms.Proofs.Ty.Order

/-! Compatibility and joins in the order of types: compatible types are the ones with an upper
bound in common, and the join of compatible types is their least upper bound. -/
namespace TypedForms.Ty

theorem compatible_unresolved (t : Ty) : t.compatible .unresolved = true := by
  cases t <;> rfl

theorem join?_unresolved (t : Ty) : t.join? .unresolved = some t := by
  cases t <;> rfl

private theorem compatibleAll_of_le {ts us vs : List Ty}
    (ih : ∀ t ∈ ts, ∀ u v, t ≤ v → u ≤ v → t.compatible u = true)
    (left : List.Forall₂ ResolvesTo ts vs) (right : List.Forall₂ ResolvesTo us vs) :
    compatibleAll ts us = true := by
  induction left generalizing us with
  | nil => cases right; rfl
  | cons head _ rest =>
    cases right with
    | cons head' tail' =>
      rw [compatibleAll, ih _ List.mem_cons_self _ _ head head',
        rest (fun t member => ih t (List.mem_cons_of_mem _ member)) tail']
      rfl

/-- Types below a common bound are compatible. -/
theorem compatible_of_le {t u bound : Ty} (left : t ≤ bound) (right : u ≤ bound) :
    t.compatible u = true := by
  induction t using Ty.induction generalizing u bound with
  | unresolved => simp [compatible]
  | num | str | bool | unit | error => cases left; cases right <;> rfl
  | func params result ihParams ihResult =>
    cases left with
    | func paramsLe resultLe =>
      cases right with
      | unresolved => exact compatible_unresolved _
      | func paramsLe' resultLe' =>
        rw [compatible, compatibleAll_of_le (fun t member _ _ => ihParams t member) paramsLe
          paramsLe', ihResult resultLe resultLe']
        rfl
  | pair first second ihFirst ihSecond =>
    cases left with
    | pair firstLe secondLe =>
      cases right with
      | unresolved => exact compatible_unresolved _
      | pair firstLe' secondLe' =>
        rw [compatible, ihFirst firstLe firstLe', ihSecond secondLe secondLe']
        rfl
  | list elem ih =>
    cases left with
    | list elemLe =>
      cases right with
      | unresolved => exact compatible_unresolved _
      | list elemLe' => rw [compatible, ih elemLe elemLe']
  | ref elem ih =>
    cases left with
    | ref elemLe =>
      cases right with
      | unresolved => exact compatible_unresolved _
      | ref elemLe' => rw [compatible, ih elemLe elemLe']

private theorem exists_joinParams {ts us : List Ty}
    (ih : ∀ t ∈ ts, ∀ u, t.compatible u = true → ∃ j, t.join? u = some j ∧ t ≤ j ∧ u ≤ j)
    (compatible : compatibleAll ts us = true) :
    ∃ js, joinParams? ts us = some js ∧ List.Forall₂ ResolvesTo ts js ∧
      List.Forall₂ ResolvesTo us js := by
  induction ts generalizing us with
  | nil =>
    cases us with
    | nil => exact ⟨[], rfl, .nil, .nil⟩
    | cons u us => simp [compatibleAll] at compatible
  | cons t ts rest =>
    cases us with
    | nil => simp [compatibleAll] at compatible
    | cons u us =>
      simp only [compatibleAll, Bool.and_eq_true] at compatible
      obtain ⟨j, joined, left, right⟩ := ih t List.mem_cons_self u compatible.1
      obtain ⟨js, joinedAll, lefts, rights⟩ :=
        rest (fun t member => ih t (List.mem_cons_of_mem _ member)) compatible.2
      exact ⟨j :: js, by simp [joinParams?, joined, joinedAll], .cons left lefts,
        .cons right rights⟩

/-- Compatible types have a join, and it is an upper bound of both. -/
theorem exists_join? {t u : Ty} (compatible : t.compatible u = true) :
    ∃ j, t.join? u = some j ∧ t ≤ j ∧ u ≤ j := by
  induction t using Ty.induction generalizing u with
  | unresolved => exact ⟨u, by simp [join?], .unresolved _, le_rfl⟩
  | num | str | bool | unit =>
    cases u <;> simp only [Ty.compatible, Bool.false_eq_true] at compatible
    · exact ⟨_, rfl, le_rfl, .unresolved _⟩
    · exact ⟨_, rfl, le_rfl, le_rfl⟩
  | error message =>
    cases u <;> simp only [Ty.compatible, Bool.false_eq_true] at compatible
    · exact ⟨_, rfl, le_rfl, .unresolved _⟩
    · exact ⟨_, rfl, le_rfl, .error _ _⟩
  | func params result ihParams ihResult =>
    cases u <;> simp only [Ty.compatible, Bool.false_eq_true, Bool.and_eq_true] at compatible
    · exact ⟨_, join?_unresolved _, le_rfl, .unresolved _⟩
    · obtain ⟨js, joinedAll, lefts, rights⟩ :=
        exists_joinParams (fun t member _ => ihParams t member) compatible.1
      obtain ⟨j, joined, left, right⟩ := ihResult compatible.2
      exact ⟨.func js j, by simp [join?, joinedAll, joined], .func lefts left,
        .func rights right⟩
  | pair first second ihFirst ihSecond =>
    cases u <;> simp only [Ty.compatible, Bool.false_eq_true, Bool.and_eq_true] at compatible
    · exact ⟨_, join?_unresolved _, le_rfl, .unresolved _⟩
    · obtain ⟨j, joined, left, right⟩ := ihFirst compatible.1
      obtain ⟨k, joined', left', right'⟩ := ihSecond compatible.2
      exact ⟨.pair j k, by simp [join?, joined, joined'], .pair left left', .pair right right'⟩
  | list elem ih =>
    cases u <;> simp only [Ty.compatible, Bool.false_eq_true] at compatible
    · exact ⟨_, join?_unresolved _, le_rfl, .unresolved _⟩
    · obtain ⟨j, joined, left, right⟩ := ih compatible
      exact ⟨.list j, by simp [join?, joined], .list left, .list right⟩
  | ref elem ih =>
    cases u <;> simp only [Ty.compatible, Bool.false_eq_true] at compatible
    · exact ⟨_, join?_unresolved _, le_rfl, .unresolved _⟩
    · obtain ⟨j, joined, left, right⟩ := ih compatible
      exact ⟨.ref j, by simp [join?, joined], .ref left, .ref right⟩

private theorem joinParams?_le {ts us js vs : List Ty}
    (ih : ∀ t ∈ ts, ∀ u j v, t.join? u = some j → t ≤ v → u ≤ v → j ≤ v)
    (joined : joinParams? ts us = some js) (left : List.Forall₂ ResolvesTo ts vs)
    (right : List.Forall₂ ResolvesTo us vs) : List.Forall₂ ResolvesTo js vs := by
  induction left generalizing us js with
  | nil =>
    simp only [joinParams?, Option.some.injEq] at joined
    subst joined
    exact .nil
  | cons head _ rest =>
    cases right with
    | cons head' tail' =>
      simp only [joinParams?, Option.bind_eq_bind, Option.bind_eq_some_iff,
        Option.some.injEq] at joined
      obtain ⟨j, joined, others, joinedAll, rfl⟩ := joined
      refine .cons (ih _ List.mem_cons_self _ _ _ joined head head') ?_
      exact rest (fun t member => ih t (List.mem_cons_of_mem _ member)) joinedAll tail'

/-- A join is below every upper bound that its two types have in common. -/
theorem join?_le {t u j bound : Ty} (joined : t.join? u = some j) (left : t ≤ bound)
    (right : u ≤ bound) : j ≤ bound := by
  induction t using Ty.induction generalizing u j bound with
  | unresolved =>
    simp only [join?, Option.some.injEq] at joined
    exact joined ▸ right
  | num | str | bool | unit | error =>
    cases left
    cases right <;> simp only [join?, Option.some.injEq] at joined <;> subst joined <;>
      first | exact le_rfl | exact .error _ _
  | func params result ihParams ihResult =>
    cases left with
    | func paramsLe resultLe =>
      cases right with
      | unresolved =>
        rw [join?_unresolved, Option.some.injEq] at joined
        exact joined ▸ .func paramsLe resultLe
      | func paramsLe' resultLe' =>
        simp only [join?, Option.bind_eq_bind, Option.bind_eq_some_iff,
          Option.some.injEq] at joined
        obtain ⟨js, joinedAll, k, joined, rfl⟩ := joined
        exact .func (joinParams?_le (fun t member _ _ _ => ihParams t member) joinedAll
          paramsLe paramsLe') (ihResult joined resultLe resultLe')
  | pair first second ihFirst ihSecond =>
    cases left with
    | pair firstLe secondLe =>
      cases right with
      | unresolved =>
        rw [join?_unresolved, Option.some.injEq] at joined
        exact joined ▸ .pair firstLe secondLe
      | pair firstLe' secondLe' =>
        simp only [join?, Option.bind_eq_bind, Option.bind_eq_some_iff,
          Option.some.injEq] at joined
        obtain ⟨k, joined, l, joined', rfl⟩ := joined
        exact .pair (ihFirst joined firstLe firstLe') (ihSecond joined' secondLe secondLe')
  | list elem ih =>
    cases left with
    | list elemLe =>
      cases right with
      | unresolved =>
        rw [join?_unresolved, Option.some.injEq] at joined
        exact joined ▸ .list elemLe
      | list elemLe' =>
        simp only [join?, Option.map_eq_some_iff] at joined
        obtain ⟨k, joined, rfl⟩ := joined
        exact .list (ih joined elemLe elemLe')
  | ref elem ih =>
    cases left with
    | ref elemLe =>
      cases right with
      | unresolved =>
        rw [join?_unresolved, Option.some.injEq] at joined
        exact joined ▸ .ref elemLe
      | ref elemLe' =>
        simp only [join?, Option.map_eq_some_iff] at joined
        obtain ⟨k, joined, rfl⟩ := joined
        exact .ref (ih joined elemLe elemLe')

private theorem containsAny_of_joinParams? {kind : Kind} {ts us js : List Ty}
    (ih : ∀ t ∈ ts, ∀ u j, t.join? u = some j → j.contains kind = true →
      t.contains kind = true ∨ u.contains kind = true)
    (joined : joinParams? ts us = some js) (found : containsAny kind js = true) :
    containsAny kind ts = true ∨ containsAny kind us = true := by
  induction ts generalizing us js with
  | nil =>
    simp only [joinParams?, Option.some.injEq] at joined
    subst joined
    simp [containsAny] at found
  | cons t ts rest =>
    cases us with
    | nil => simp [joinParams?] at joined
    | cons u us =>
      simp only [joinParams?, Option.bind_eq_bind, Option.bind_eq_some_iff,
        Option.some.injEq] at joined
      obtain ⟨j, joined, others, joinedAll, rfl⟩ := joined
      simp only [containsAny, Bool.or_eq_true] at found ⊢
      rcases found with found | found
      · have := ih t List.mem_cons_self u j joined found
        tauto
      · have := rest (fun t member => ih t (List.mem_cons_of_mem _ member)) joinedAll found
        tauto

/-- A join has no parts of a kind that neither of its types has. -/
theorem contains_of_join? {kind : Kind} {t u j : Ty} (joined : t.join? u = some j)
    (found : j.contains kind = true) : t.contains kind = true ∨ u.contains kind = true := by
  induction t using Ty.induction generalizing u j with
  | unresolved =>
    simp only [join?, Option.some.injEq] at joined
    exact .inr (joined ▸ found)
  | num | str | bool | unit | error =>
    cases u <;> simp only [join?, Option.some.injEq] at joined <;> exact .inl (joined ▸ found)
  | func params result ihParams ihResult =>
    cases u <;> simp only [join?, Option.bind_eq_bind, Option.bind_eq_some_iff,
      Option.some.injEq, reduceCtorEq] at joined
    · exact .inl (joined ▸ found)
    · obtain ⟨js, joinedAll, k, joined, rfl⟩ := joined
      simp only [contains, Bool.or_eq_true] at found ⊢
      rcases found with (found | found) | found
      · exact .inl (.inl (.inl found))
      · have := containsAny_of_joinParams? (fun t member _ _ => ihParams t member) joinedAll found
        tauto
      · have := ihResult joined found
        tauto
  | pair first second ihFirst ihSecond =>
    cases u <;> simp only [join?, Option.bind_eq_bind, Option.bind_eq_some_iff,
      Option.some.injEq, reduceCtorEq] at joined
    · exact .inl (joined ▸ found)
    · obtain ⟨k, joined, l, joined', rfl⟩ := joined
      simp only [contains, Bool.or_eq_true] at found ⊢
      rcases found with (found | found) | found
      · exact .inl (.inl (.inl found))
      · have := ihFirst joined found
        tauto
      · have := ihSecond joined' found
        tauto
  | list elem ih =>
    cases u <;> simp only [join?, Option.map_eq_some_iff, Option.some.injEq,
      reduceCtorEq] at joined
    · exact .inl (joined ▸ found)
    · obtain ⟨k, joined, rfl⟩ := joined
      simp only [contains, Bool.or_eq_true] at found ⊢
      rcases found with found | found
      · exact .inl (.inl found)
      · have := ih joined found
        tauto
  | ref elem ih =>
    cases u <;> simp only [join?, Option.map_eq_some_iff, Option.some.injEq,
      reduceCtorEq] at joined
    · exact .inl (joined ▸ found)
    · obtain ⟨k, joined, rfl⟩ := joined
      simp only [contains, Bool.or_eq_true] at found ⊢
      rcases found with found | found
      · exact .inl (.inl found)
      · have := ih joined found
        tauto

theorem ErrorFree.join? {t u j : Ty} (left : t.ErrorFree) (right : u.ErrorFree)
    (joined : t.join? u = some j) : j.ErrorFree := by
  by_contra erroneous
  rw [ErrorFree, Bool.not_eq_false] at erroneous
  rcases contains_of_join? joined erroneous with found | found
  · exact absurd (left.symm.trans found) Bool.false_ne_true
  · exact absurd (right.symm.trans found) Bool.false_ne_true

/-- Being compatible is having a common upper bound. -/
theorem compatible_iff_exists_le {t u : Ty} :
    t.compatible u = true ↔ ∃ bound, t ≤ bound ∧ u ≤ bound := by
  constructor
  · intro compatible
    obtain ⟨j, _, left, right⟩ := exists_join? compatible
    exact ⟨j, left, right⟩
  · rintro ⟨bound, left, right⟩
    exact compatible_of_le left right

/-- The join of compatible types is their least upper bound. -/
theorem isLUB_join? {t u j : Ty} (compatible : t.compatible u = true)
    (joined : t.join? u = some j) : IsLUB {t, u} j := by
  obtain ⟨k, joined', left, right⟩ := exists_join? compatible
  obtain rfl : j = k := Option.some.inj (joined.symm.trans joined')
  refine ⟨?_, fun bound upper => ?_⟩
  · rintro v (rfl | rfl)
    · exact left
    · exact right
  · exact join?_le joined (upper (by simp)) (upper (by simp))

/-- A join takes the place of its two types among others that have to be below a bound. -/
theorem isLUB_insert_join {t u j final : Ty} {others : Set Ty} (least : IsLUB {t, u} j) :
    IsLUB (insert j others) final ↔ IsLUB (insert t (insert u others)) final := by
  have same : upperBounds (insert j others) = upperBounds (insert t (insert u others)) := by
    ext bound
    have split : j ≤ bound ↔ t ≤ bound ∧ u ≤ bound := by
      rw [isLUB_le_iff least, mem_upperBounds]
      simp
    simp only [mem_upperBounds, Set.forall_mem_insert, split, and_assoc]
  unfold IsLUB
  rw [same]

private theorem compatibleAll_of_joinParams? {ts us js vs : List Ty}
    (ih : ∀ t ∈ ts, ∀ u j v, t.join? u = some j → t.compatible v = true →
      u.compatible v = true → j.compatible v = true)
    (joined : joinParams? ts us = some js) (left : compatibleAll ts vs = true)
    (right : compatibleAll us vs = true) : compatibleAll js vs = true := by
  induction ts generalizing us js vs with
  | nil =>
    simp only [joinParams?, Option.some.injEq] at joined
    exact joined ▸ left
  | cons t ts rest =>
    obtain ⟨first, others⟩ := List.forall_mem_cons.mp ih
    cases us with
    | nil => simp [joinParams?] at joined
    | cons u us =>
      simp only [joinParams?, Option.bind_eq_bind, Option.bind_eq_some_iff,
        Option.some.injEq] at joined
      obtain ⟨j, found, js, joinedAll, rfl⟩ := joined
      cases vs with
      | nil => simp [compatibleAll] at left
      | cons v vs =>
        simp only [compatibleAll, Bool.and_eq_true] at left right ⊢
        exact ⟨first u j v found left.1 right.1, rest others joinedAll left.2 right.2⟩

/-- What is compatible with two types is compatible with their join, although what is compatible
with one type need not be so with another one that is. -/
theorem compatible_of_join? {t u j v : Ty} (joined : t.join? u = some j)
    (left : t.compatible v = true) (right : u.compatible v = true) : j.compatible v = true := by
  induction t using Ty.induction generalizing u j v with
  | unresolved =>
    simp only [join?, Option.some.injEq] at joined
    exact joined ▸ right
  | num | str | bool | unit | error =>
    cases u <;> simp only [join?, Option.some.injEq] at joined <;> exact joined ▸ left
  | func params result ihParams ihResult =>
    cases u <;> simp only [join?, Option.bind_eq_bind, Option.bind_eq_some_iff,
      Option.some.injEq, reduceCtorEq] at joined
    · exact joined ▸ left
    · obtain ⟨js, joinedAll, k, found, rfl⟩ := joined
      cases v with
      | unresolved => exact compatible_unresolved _
      | func params' result' =>
        simp only [compatible, Bool.and_eq_true] at left right ⊢
        exact ⟨compatibleAll_of_joinParams? (fun t member _ _ _ => ihParams t member) joinedAll
          left.1 right.1, ihResult found left.2 right.2⟩
      | _ => simp [compatible] at left
  | pair first second ihFirst ihSecond =>
    cases u <;> simp only [join?, Option.bind_eq_bind, Option.bind_eq_some_iff,
      Option.some.injEq, reduceCtorEq] at joined
    · exact joined ▸ left
    · obtain ⟨k, found, l, found', rfl⟩ := joined
      cases v with
      | unresolved => exact compatible_unresolved _
      | pair first' second' =>
        simp only [compatible, Bool.and_eq_true] at left right ⊢
        exact ⟨ihFirst found left.1 right.1, ihSecond found' left.2 right.2⟩
      | _ => simp [compatible] at left
  | list elem ih =>
    cases u <;> simp only [join?, Option.map_eq_some_iff, Option.some.injEq,
      reduceCtorEq] at joined
    · exact joined ▸ left
    · obtain ⟨k, found, rfl⟩ := joined
      cases v with
      | unresolved => exact compatible_unresolved _
      | list elem' =>
        simp only [compatible] at left right ⊢
        exact ih found left right
      | _ => simp [compatible] at left
  | ref elem ih =>
    cases u <;> simp only [join?, Option.map_eq_some_iff, Option.some.injEq,
      reduceCtorEq] at joined
    · exact joined ▸ left
    · obtain ⟨k, found, rfl⟩ := joined
      cases v with
      | unresolved => exact compatible_unresolved _
      | ref elem' =>
        simp only [compatible] at left right ⊢
        exact ih found left right
      | _ => simp [compatible] at left

/-- Types of which any two are compatible have a least upper bound all together. The join of the
first two is compatible with all others, and so can take their place. -/
theorem exists_isLUB_of_pairwise {t : Ty} {ts : List Ty}
    (pairwise : (t :: ts).Pairwise fun t u => t.compatible u = true) :
    ∃ j, IsLUB (insert t {u | u ∈ ts}) j := by
  induction ts generalizing t with
  | nil => exact ⟨t, by simp⟩
  | cons u ts ih =>
    obtain ⟨withT, rest⟩ := List.pairwise_cons.mp pairwise
    obtain ⟨withU, others⟩ := List.pairwise_cons.mp rest
    have compatible := withT u List.mem_cons_self
    obtain ⟨j, joined, _⟩ := exists_join? compatible
    have withJ : ∀ v ∈ ts, j.compatible v = true := by
      intro v member
      exact compatible_of_join? joined (withT v (List.mem_cons_of_mem _ member)) (withU v member)
    obtain ⟨final, least⟩ := ih (List.pairwise_cons.mpr ⟨withJ, others⟩)
    refine ⟨final, ?_⟩
    have parts : {v | v ∈ u :: ts} = insert u {v | v ∈ ts} := by
      ext v
      simp
    rw [parts, ← isLUB_insert_join (isLUB_join? compatible joined)]
    exact least

theorem exists_isLUB_iff_pairwise {t : Ty} {ts : List Ty} :
    (∃ j, IsLUB (insert t {u | u ∈ ts}) j) ↔
      (t :: ts).Pairwise fun t u => t.compatible u = true := by
  constructor
  · rintro ⟨j, bounds, _⟩
    have below : ∀ u ∈ t :: ts, u ≤ j := by
      intro u member
      exact bounds (by simpa using member)
    refine List.pairwise_iff_forall_sublist.mpr fun {u v} pair => ?_
    exact compatible_of_le (below u (pair.subset (by simp))) (below v (pair.subset (by simp)))
  · exact exists_isLUB_of_pairwise

/-- Types that are resolved less far are compatible wherever the further ones are. -/
theorem compatible_mono {t t' u u' : Ty} (left : t' ≤ t) (right : u' ≤ u)
    (compatible : t.compatible u = true) : t'.compatible u' = true := by
  obtain ⟨bound, tLe, uLe⟩ := compatible_iff_exists_le.mp compatible
  exact compatible_of_le (left.trans tLe) (right.trans uLe)

theorem join?_mono {t t' u u' j j' : Ty} (left : t' ≤ t) (right : u' ≤ u)
    (compatible : t.compatible u = true) (joined : t.join? u = some j)
    (joined' : t'.join? u' = some j') : j' ≤ j := by
  obtain ⟨k, found, tLe, uLe⟩ := exists_join? compatible
  obtain rfl : j = k := Option.some.inj (joined.symm.trans found)
  exact join?_le joined' (left.trans tLe) (right.trans uLe)

/-- A join is an error only if one of its two types is. -/
theorem isError_join? {t u j : Ty} (joined : t.join? u = some j) (left : t.isError = false)
    (right : u.isError = false) : j.isError = false := by
  have kind : j.kind = t.kind ∨ j.kind = u.kind := by
    cases t <;> cases u <;>
      simp only [join?, Option.some.injEq, Option.bind_eq_bind, Option.bind_eq_some_iff,
        Option.map_eq_some_iff, reduceCtorEq] at joined <;> grind [Ty.kind]
  rcases kind with same | same
  · rwa [isError, same]
  · rwa [isError, same]

end TypedForms.Ty
