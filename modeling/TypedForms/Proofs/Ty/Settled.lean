import TypedForms.Proofs.Ty.Forget
import TypedForms.Proofs.Ty.Render

/-! Settled types, by what stands in them: no error at any depth, and no unresolved part that
strays from the place of an element type. -/
namespace TypedForms.Ty

mutual

/-- Whether an unresolved part stands anywhere but as the element type of a list. -/
def strays : Ty → Bool
  | .unresolved => true
  | .num | .str | .bool | .unit | .error _ => false
  | .func params result => straysAny params || strays result
  | .pair left right => strays left || strays right
  | .list elem => elem.kind != .unresolved && strays elem
  | .ref elem => strays elem

def straysAny : List Ty → Bool
  | [] => false
  | t :: ts => strays t || straysAny ts

end

variable {t : Ty}

theorem straysAny_eq_false_iff {ts : List Ty} :
    straysAny ts = false ↔ ∀ t ∈ ts, t.strays = false := by
  induction ts with
  | nil => simp [straysAny]
  | cons t ts ih => simp [straysAny, ih]

namespace Settled

theorem errorFree (settled : t.Settled) : t.ErrorFree := by
  induction settled with
  | num | str | bool | unit | empty => rfl
  | func _ _ ihParams ihResult => exact ErrorFree.func_iff.mpr ⟨ihParams, ihResult⟩
  | pair _ _ ihLeft ihRight => exact ErrorFree.pair_iff.mpr ⟨ihLeft, ihRight⟩
  | list _ ih => exact ErrorFree.list_iff.mpr ih
  | ref _ ih => exact ErrorFree.ref_iff.mpr ih

theorem strays_eq_false (settled : t.Settled) : t.strays = false := by
  induction settled with
  | num | str | bool | unit | empty => rfl
  | func _ _ ihParams ihResult =>
    simp [strays, straysAny_eq_false_iff.mpr ihParams, ihResult]
  | pair _ _ ihLeft ihRight => simp [strays, ihLeft, ihRight]
  | list _ ih | ref _ ih => simp [strays, ih]

theorem of_strays (free : t.ErrorFree) (placed : t.strays = false) : t.Settled := by
  induction t using Ty.induction with
  | unresolved => simp [strays] at placed
  | num => exact .num
  | str => exact .str
  | bool => exact .bool
  | unit => exact .unit
  | error message => simp at free
  | func params result ihParams ihResult =>
    simp only [strays, Bool.or_eq_false_iff, straysAny_eq_false_iff] at placed
    obtain ⟨paramsFree, resultFree⟩ := ErrorFree.func_iff.mp free
    exact .func (fun t member => ihParams t member (paramsFree t member) (placed.1 t member))
      (ihResult resultFree placed.2)
  | pair left right ihLeft ihRight =>
    simp only [strays, Bool.or_eq_false_iff] at placed
    obtain ⟨leftFree, rightFree⟩ := ErrorFree.pair_iff.mp free
    exact .pair (ihLeft leftFree placed.1) (ihRight rightFree placed.2)
  | list elem ih =>
    simp only [strays, Bool.and_eq_false_iff, bne_eq_false_iff_eq] at placed
    rcases placed with unresolved | placed
    · cases elem with
      | unresolved => exact .empty
      | _ => simp [kind] at unresolved
    · exact .list (ih (ErrorFree.list_iff.mp free) placed)
  | ref elem ih => exact .ref (ih (ErrorFree.ref_iff.mp free) placed)

end Settled

/-- The settled types are those without an error in which nothing unresolved strays. -/
theorem settled_iff : t.Settled ↔ t.ErrorFree ∧ t.strays = false :=
  ⟨fun settled => ⟨settled.errorFree, settled.strays_eq_false⟩, fun ⟨free, placed⟩ =>
    .of_strays free placed⟩

theorem strays_eq_false_of_contains (resolved : t.contains .unresolved = false) :
    t.strays = false := by
  induction t using Ty.induction with
  | unresolved => simp [contains] at resolved
  | num | str | bool | unit | error => rfl
  | func params result ihParams ihResult =>
    simp only [contains, Bool.or_eq_false_iff, containsAny_eq_false_iff] at resolved
    have paramsPlaced := fun t member => ihParams t member (resolved.1.2 t member)
    simp [strays, straysAny_eq_false_iff.mpr paramsPlaced, ihResult resolved.2]
  | pair left right ihLeft ihRight =>
    simp only [contains, Bool.or_eq_false_iff] at resolved
    simp [strays, ihLeft resolved.1.2, ihRight resolved.2]
  | list elem ih | ref elem ih =>
    simp only [contains, Bool.or_eq_false_iff] at resolved
    simp [strays, ih resolved.2]

theorem settled_of_isConcrete (concrete : t.isConcrete = true) : t.Settled := by
  obtain ⟨free, resolved⟩ := isConcrete_iff.mp concrete
  exact .of_strays free (strays_eq_false_of_contains resolved)

namespace Clean

theorem error (message : String) : (Ty.error message).Clean := .inl rfl

/-- A clean type is not the bare placeholder. -/
theorem ne_unresolved (clean : t.Clean) : t ≠ .unresolved := by
  rintro rfl
  rcases clean with error | settled
  · simp [isError, kind] at error
  · cases settled

end Clean

end TypedForms.Ty
