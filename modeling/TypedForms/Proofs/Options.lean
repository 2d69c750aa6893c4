import TypedForms.Options
import TypedForms.Proofs.Ty.Order

/-! Options without a problem: the types they give to what is read and evaluated are set, and
have no placeholder in them. -/
namespace TypedForms.Options

variable {o : Options}

theorem problem?_eq_none_iff :
    o.problem? = none ↔ ∃ readType, o.readType = some readType ∧ readType.isConcrete = true ∧
      (o.eval = .dynamic → ∃ evalType, o.evalType = some evalType ∧
        evalType.isConcrete = true) := by
  obtain ⟨readType, eval, evalType⟩ := o
  constructor
  · intro valid
    cases readType with
    | none => simp [problem?] at valid
    | some readType =>
      cases concrete : readType.isConcrete with
      | false => simp [problem?, concrete] at valid
      | true =>
        refine ⟨readType, rfl, concrete, ?_⟩
        rintro rfl
        cases evalType with
        | none => simp [problem?, concrete] at valid
        | some evalType => exact ⟨evalType, rfl, by simpa [problem?, concrete] using valid⟩
  · rintro ⟨readType, rfl, concrete, dynamic⟩
    by_cases policy : eval = .dynamic
    · obtain ⟨evalType, rfl, concrete'⟩ := dynamic policy
      simp [problem?, concrete, policy, concrete']
    · simp [problem?, concrete, policy]

theorem concrete_inputType (valid : o.problem? = none) :
    o.readType = some o.inputType ∧ o.inputType.isConcrete = true := by
  obtain ⟨readType, set, concrete, _⟩ := problem?_eq_none_iff.mp valid
  rw [inputType, set]
  exact ⟨rfl, concrete⟩

theorem concrete_evalResult (valid : o.problem? = none) (dynamic : o.eval = .dynamic) :
    o.evalType = some o.evalResult ∧ o.evalResult.isConcrete = true := by
  obtain ⟨_, _, _, allowed⟩ := problem?_eq_none_iff.mp valid
  obtain ⟨evalType, set, concrete⟩ := allowed dynamic
  rw [evalResult, set]
  exact ⟨rfl, concrete⟩

/-- What is read has a type of its own. -/
theorem readType_of_valid (valid : o.problem? = none) :
    o.readType = some o.inputType ∧ o.inputType.ErrorFree :=
  (concrete_inputType valid).imp_right fun concrete => (Ty.isConcrete_iff.mp concrete).1

/-- So has what is evaluated, where evaluation is allowed. -/
theorem evalType_of_valid (valid : o.problem? = none) (dynamic : o.eval = .dynamic) :
    o.evalType = some o.evalResult ∧ o.evalResult.ErrorFree :=
  (concrete_evalResult valid dynamic).imp_right fun concrete => (Ty.isConcrete_iff.mp concrete).1

end TypedForms.Options
