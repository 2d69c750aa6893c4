import TypedForms.Proofs.Ty.Join

/-! The order of types in other words. A type is below another one when the other one comes out of
it by putting types in the places of unresolved parts, where the messages of errors do not count.
Types without unresolved parts are then comparable only if they are the same, and compatible only
if they are the same. -/
namespace TypedForms.Ty

mutual

/-- The type with the messages of its errors left out. -/
def muted : Ty → Ty
  | .error _ => .error ""
  | .func params result => .func (mutedAll params) (muted result)
  | .pair left right => .pair (muted left) (muted right)
  | .list elem => .list (muted elem)
  | .ref elem => .ref (muted elem)
  | t => t

def mutedAll : List Ty → List Ty
  | [] => []
  | t :: ts => muted t :: mutedAll ts

end

mutual

/-- How often `unresolved` occurs in a type. -/
def holes : Ty → Nat
  | .unresolved => 1
  | .func params result => holesAll params + holes result
  | .pair left right => holes left + holes right
  | .list elem => holes elem
  | .ref elem => holes elem
  | _ => 0

def holesAll : List Ty → Nat
  | [] => 0
  | t :: ts => holes t + holesAll ts

end

mutual

/-- The type with given types in the places of `unresolved`, from left to right. Where no more
types are given, `unresolved` is left in its place. -/
def fill : Ty → List Ty → Ty
  | .unresolved, fillings => fillings.headD .unresolved
  | .func params result, fillings =>
    .func (fillAll params fillings) (fill result (fillings.drop (holesAll params)))
  | .pair left right, fillings => .pair (fill left fillings) (fill right (fillings.drop left.holes))
  | .list elem, fillings => .list (fill elem fillings)
  | .ref elem, fillings => .ref (fill elem fillings)
  | t, _ => t

def fillAll : List Ty → List Ty → List Ty
  | [], _ => []
  | t :: ts, fillings => fill t fillings :: fillAll ts (fillings.drop t.holes)

end

/-! Sameness. -/

private theorem sameAll_iff_mutedAll {ts us : List Ty}
    (ih : ∀ t ∈ ts, ∀ u, t.same u = true ↔ t.muted = u.muted) :
    sameAll ts us = true ↔ mutedAll ts = mutedAll us := by
  induction ts generalizing us with
  | nil => cases us <;> simp [sameAll, mutedAll]
  | cons t ts rest =>
    obtain ⟨first, others⟩ := List.forall_mem_cons.mp ih
    cases us with
    | nil => simp [sameAll, mutedAll]
    | cons u us => simp [sameAll, mutedAll, first, rest others]

/-- Types are the same when they are equal but for the messages of errors. -/
theorem same_iff_muted {t u : Ty} : t.same u = true ↔ t.muted = u.muted := by
  induction t using Ty.induction generalizing u with
  | unresolved | num | str | bool | unit | error => cases u <;> simp [same, muted]
  | func params result ihParams ihResult =>
    cases u with
    | func params' result' =>
      simp [same, muted, sameAll_iff_mutedAll fun t member _ => ihParams t member, ihResult]
    | _ => simp [same, muted]
  | pair left right ihLeft ihRight => cases u <;> simp [same, muted, ihLeft, ihRight]
  | list elem ih | ref elem ih => cases u <;> simp [same, muted, ih]

private theorem forall₂_of_sameAll {ts us : List Ty}
    (ih : ∀ t ∈ ts, ∀ u, t.same u = true → t ≤ u) (same : sameAll ts us = true) :
    List.Forall₂ ResolvesTo ts us := by
  induction ts generalizing us with
  | nil => cases us <;> simp [sameAll] at same ⊢
  | cons t ts rest =>
    obtain ⟨first, others⟩ := List.forall_mem_cons.mp ih
    cases us with
    | nil => simp [sameAll] at same
    | cons u us =>
      simp only [sameAll, Bool.and_eq_true] at same
      exact .cons (first u same.1) (rest others same.2)

theorem le_of_same {t u : Ty} (same : t.same u = true) : t ≤ u := by
  induction t using Ty.induction generalizing u with
  | unresolved => exact .unresolved u
  | num | str | bool | unit =>
    cases u <;> simp [Ty.same] at same
    exact le_rfl
  | error message =>
    cases u <;> simp [Ty.same] at same
    exact .error _ _
  | func params result ihParams ihResult =>
    cases u <;> simp [Ty.same] at same
    exact .func (forall₂_of_sameAll (fun t member _ => ihParams t member) same.1)
      (ihResult same.2)
  | pair left right ihLeft ihRight =>
    cases u <;> simp [Ty.same] at same
    exact .pair (ihLeft same.1) (ihRight same.2)
  | list elem ih =>
    cases u <;> simp [Ty.same] at same
    exact .list (ih same)
  | ref elem ih =>
    cases u <;> simp [Ty.same] at same
    exact .ref (ih same)

private theorem sameAll_of_le {ts us : List Ty}
    (ih : ∀ t ∈ ts, ∀ u, t.contains .unresolved = false → t ≤ u → t.same u = true)
    (resolved : ∀ t ∈ ts, t.contains .unresolved = false)
    (le : List.Forall₂ ResolvesTo ts us) : sameAll ts us = true := by
  induction le with
  | nil => rfl
  | cons head _ rest =>
    obtain ⟨first, others⟩ := List.forall_mem_cons.mp ih
    obtain ⟨firstResolved, othersResolved⟩ := List.forall_mem_cons.mp resolved
    rw [sameAll, first _ firstResolved head, rest others othersResolved]
    rfl

/-- What is resolved throughout is below its like only. -/
theorem same_of_le {t u : Ty} (resolved : t.contains .unresolved = false) (le : t ≤ u) :
    t.same u = true := by
  induction t using Ty.induction generalizing u with
  | unresolved => simp [contains] at resolved
  | num | str | bool | unit | error => cases le; rfl
  | func params result ihParams ihResult =>
    simp only [contains, Bool.or_eq_false_iff, containsAny_eq_false_iff] at resolved
    cases le with | func paramsLe resultLe =>
    rw [same, sameAll_of_le (fun t member _ => ihParams t member) resolved.1.2 paramsLe,
      ihResult resolved.2 resultLe]
    rfl
  | pair left right ihLeft ihRight =>
    simp only [contains, Bool.or_eq_false_iff] at resolved
    cases le with | pair leftLe rightLe =>
    rw [same, ihLeft resolved.1.2 leftLe, ihRight resolved.2 rightLe]
    rfl
  | list elem ih =>
    simp only [contains, Bool.or_eq_false_iff] at resolved
    cases le with | list elemLe => exact ih resolved.2 elemLe
  | ref elem ih =>
    simp only [contains, Bool.or_eq_false_iff] at resolved
    cases le with | ref elemLe => exact ih resolved.2 elemLe

/-! Fillings. -/

private theorem le_fillAll {ts fillings : List Ty}
    (ih : ∀ t ∈ ts, ∀ fillings, t ≤ t.fill fillings) :
    List.Forall₂ ResolvesTo ts (fillAll ts fillings) := by
  induction ts generalizing fillings with
  | nil => exact .nil
  | cons t ts rest =>
    obtain ⟨first, others⟩ := List.forall_mem_cons.mp ih
    exact .cons (first fillings) (rest others)

theorem le_fill (t : Ty) (fillings : List Ty) : t ≤ t.fill fillings := by
  induction t using Ty.induction generalizing fillings with
  | unresolved => exact .unresolved _
  | num | str | bool | unit | error => exact le_rfl
  | func params result ihParams ihResult => exact .func (le_fillAll ihParams) (ihResult _)
  | pair left right ihLeft ihRight => exact .pair (ihLeft _) (ihRight _)
  | list elem ih => exact .list (ih _)
  | ref elem ih => exact .ref (ih _)

private theorem exists_fillAll {ts us : List Ty}
    (ih : ∀ t ∈ ts, ∀ u, t ≤ u → ∃ fillings : List Ty, fillings.length = t.holes ∧
      ∀ more, (t.fill (fillings ++ more)).same u = true)
    (le : List.Forall₂ ResolvesTo ts us) :
    ∃ fillings : List Ty, fillings.length = holesAll ts ∧
      ∀ more, sameAll (fillAll ts (fillings ++ more)) us = true := by
  induction le with
  | nil => exact ⟨[], rfl, fun _ => rfl⟩
  | cons head _ rest =>
    obtain ⟨first, others⟩ := List.forall_mem_cons.mp ih
    obtain ⟨fillings, count, same⟩ := first _ head
    obtain ⟨fillings', count', same'⟩ := rest others
    refine ⟨fillings ++ fillings', by simp [holesAll, count, count'], fun more => ?_⟩
    rw [List.append_assoc, fillAll, List.drop_left' count, sameAll, same, same']
    rfl

/-- What is above a type comes out of it by a filling. One type is taken for each place, so that
those for the places further to the right can follow. -/
theorem exists_fill {t u : Ty} (le : t ≤ u) :
    ∃ fillings : List Ty, fillings.length = t.holes ∧
      ∀ more, (t.fill (fillings ++ more)).same u = true := by
  induction t using Ty.induction generalizing u with
  | unresolved => exact ⟨[u], rfl, fun more => same_iff_muted.mpr rfl⟩
  | num | str | bool | unit | error =>
    cases le
    exact ⟨[], rfl, fun _ => rfl⟩
  | func params result ihParams ihResult =>
    cases le with | func paramsLe resultLe =>
    obtain ⟨fillings, count, same⟩ :=
      exists_fillAll (fun t member _ => ihParams t member) paramsLe
    obtain ⟨fillings', count', same'⟩ := ihResult resultLe
    refine ⟨fillings ++ fillings', by simp [holes, count, count'], fun more => ?_⟩
    rw [List.append_assoc, fill, List.drop_left' count, Ty.same, same, same']
    rfl
  | pair left right ihLeft ihRight =>
    cases le with | pair leftLe rightLe =>
    obtain ⟨fillings, count, same⟩ := ihLeft leftLe
    obtain ⟨fillings', count', same'⟩ := ihRight rightLe
    refine ⟨fillings ++ fillings', by simp [holes, count, count'], fun more => ?_⟩
    rw [List.append_assoc, fill, List.drop_left' count, Ty.same, same, same']
    rfl
  | list elem ih => cases le with | list elemLe => exact ih elemLe
  | ref elem ih => cases le with | ref elemLe => exact ih elemLe

theorem le_iff_exists_fill {t u : Ty} : t ≤ u ↔ ∃ fillings, (t.fill fillings).same u = true := by
  constructor
  · intro le
    obtain ⟨fillings, _, same⟩ := exists_fill le
    exact ⟨fillings ++ [], same []⟩
  · rintro ⟨fillings, same⟩
    exact (le_fill t fillings).trans (le_of_same same)

/-! Compatibility. -/

theorem compatible_self (t : Ty) : t.compatible t = true := compatible_of_le le_rfl le_rfl

theorem compatible_symm {t u : Ty} (compatible : t.compatible u = true) :
    u.compatible t = true := by
  obtain ⟨bound, left, right⟩ := compatible_iff_exists_le.mp compatible
  exact compatible_of_le right left

/-- Resolved types are compatible when they are the same. -/
theorem compatible_iff_same {t u : Ty} (left : t.contains .unresolved = false)
    (right : u.contains .unresolved = false) : t.compatible u = true ↔ t.same u = true := by
  constructor
  · intro compatible
    obtain ⟨bound, tLe, uLe⟩ := compatible_iff_exists_le.mp compatible
    have tSame := same_iff_muted.mp (same_of_le left tLe)
    have uSame := same_iff_muted.mp (same_of_le right uLe)
    exact same_iff_muted.mpr (tSame.trans uSame.symm)
  · intro same
    exact compatible_of_le (le_of_same same) le_rfl

/-- Compatible types are the ones that can be filled in to become the same, and their join is the
least type that they can become: it can be filled in to become any other. No type is compatible
with fewer or more types for standing on one side or the other, and where nothing is unresolved
compatible types are the same, that is equal but for the messages of errors. -/
theorem join_is_least_upper_bound :
    (∀ t u : Ty, t.same u = true ↔ t.muted = u.muted) ∧
    (∀ t u : Ty, t ≤ u ↔ ∃ fillings, (t.fill fillings).same u = true) ∧
    (∀ t u : Ty, t.compatible u = true ↔ ∃ bound, t ≤ bound ∧ u ≤ bound) ∧
    (∀ t u : Ty, t.compatible u = true → ∃ j, t.join? u = some j ∧ t ≤ j ∧ u ≤ j ∧
      ∀ bound, t ≤ bound → u ≤ bound → j ≤ bound) ∧
    (∀ t : Ty, t.compatible t = true) ∧
    (∀ t u : Ty, t.compatible u = true → u.compatible t = true) ∧
    ∀ t u : Ty, t.contains .unresolved = false → u.contains .unresolved = false →
      (t.compatible u = true ↔ t.same u = true) := by
  refine ⟨fun t u => same_iff_muted, fun t u => le_iff_exists_fill,
    fun t u => compatible_iff_exists_le, fun t u compatible => ?_, compatible_self,
    fun t u => compatible_symm, fun t u => compatible_iff_same⟩
  obtain ⟨j, joined, left, right⟩ := exists_join? compatible
  exact ⟨j, joined, left, right, fun bound => join?_le joined⟩

/-- Each of two types fills in what is unresolved in the other one, and what is unresolved in both
is left so. -/
theorem join_is_least_upper_bound_of_scattered_holes :
    let t : Ty := .func [.list .unresolved, .pair .num .unresolved] .unresolved
    let u : Ty := .func [.list .str, .pair .unresolved .bool] (.ref .unresolved)
    let j : Ty := .func [.list .str, .pair .num .bool] (.ref .unresolved)
    t.compatible u = true ∧ u.compatible t = true ∧ t.join? u = some j ∧ t ≤ j ∧ u ≤ j ∧
    j ≤ .func [.list .str, .pair .num .bool] (.ref .unit) ∧
    (Ty.list (.error "lost")).same (.list (.error "gone")) = true := by
  intro t u j
  have compatible : t.compatible u = true := rfl
  obtain ⟨_, filled, _, least, _, symm, resolved⟩ := join_is_least_upper_bound
  obtain ⟨k, joined, left, right, below⟩ := least t u compatible
  obtain rfl : j = k := Option.some.inj joined
  refine ⟨compatible, symm t u compatible, joined, left, right, below _ ?_ ?_, ?_⟩
  · exact (filled _ _).mpr ⟨[.str, .bool, .ref .unit], rfl⟩
  · exact (filled _ _).mpr ⟨[.num, .unit], rfl⟩
  · exact (resolved _ _ rfl rfl).mp rfl

end TypedForms.Ty
