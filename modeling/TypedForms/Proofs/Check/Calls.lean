import TypedForms.Proofs.Check.Typing

/-! A `let` as a call. The names of a `let` are taken as the parameters of a function with the
same body, which is called on the spot with the values of the bindings. Where a name has a type
written, the argument is held against that type as the value of the binding is; where it has none,
the parameter is given the type that is found for the value, against which the argument cannot
fail. -/
namespace TypedForms.Check

variable {o : Options} {env : Env Ty} {context : Context} {t got : Ty} {value : Expr}
  {binder : Binder} {bound : List (Binder × Expr)}

/-- The parameter in the place of a binding. -/
def parameter (o : Options) (env : Env Ty) (binding : Binder × Expr) : Binder :=
  { binding.1 with type := some (binding.1.type.getD (expr o env binding.2).value) }

/-- The call on the spot that a `let` amounts to; the tokens are those of the call and of the
function. -/
def calledOnTheSpot (o : Options) (env : Env Ty) (call lambda : Token)
    (bound : List (Binder × Expr)) (body : Expr) : Expr :=
  .call call (.lambda lambda (bound.map (parameter o env)) body) (bound.map (·.2))

/-- A function that is called on the spot is called with its written types, and these are also
what its body is checked under. -/
theorem hasType_call_lambda_iff {call lambda : Token} {params : List Binder} {body : Expr}
    {args : List Expr} :
    HasType o context (.call call (.lambda lambda params body) args) t ↔
      ∃ declared types, List.Forall₂ Binder.Declares params declared ∧
        HaveTypes o context args types ∧ List.Forall₂ Ty.Agrees declared types ∧
        HasType o (context.declare params declared) body t := by
  constructor
  · intro typed
    cases typed with | call operatorType argTypes fit =>
    cases operatorType with | lambda declared bodyType =>
    exact ⟨_, _, declared, argTypes, fit, bodyType⟩
  · rintro ⟨declared, types, declares, argTypes, fit, bodyType⟩
    exact .call (.lambda declares bodyType) argTypes fit

theorem hasType_letIn_iff {token : Token} {body : Expr} :
    HasType o context (.letIn token bound body) t ↔
      ∃ new, Binds o context bound new ∧ HasType o (context.bindAll new) body t := by
  constructor
  · intro typed
    cases typed with | letIn values bodyType =>
    exact ⟨_, values, bodyType⟩
  · rintro ⟨new, values, bodyType⟩
    exact .letIn values bodyType

/-- What a parameter declares and its argument agrees with is what the binding binds. -/
theorem declares_parameter_iff (clean : expr o env value = pure got) (gotFree : got.ErrorFree) :
    (parameter o env (binder, value)).Declares t ∧ t.Agrees got ↔
      binder.type = none ∧ got = t ∨ binder.Declares t ∧ t.Agrees got := by
  have found : (expr o env value).value = got := by
    rw [clean, Diagnosed.value_pure]
  cases written : binder.type with
  | none =>
    -- The argument has the very type of the parameter, and is not refused by it.
    simp only [parameter, Binder.Declares, written, found, Option.getD_none, Option.some.injEq,
      reduceCtorEq, false_and, or_false, true_and]
    constructor
    · rintro ⟨⟨same, _⟩, _⟩
      exact same
    · rintro rfl
      exact ⟨⟨rfl, gotFree⟩, got, le_rfl, le_rfl⟩
  | some declared =>
    simp [parameter, Binder.Declares, written]

section

variable (valid : o.problem? = none) (free : env.All Ty.ErrorFree)
include valid free

/-- One binding more is one parameter and one argument more. -/
theorem binds_cons_iff {rest : List (Binder × Expr)} {new : List (String × Ty)} :
    Binds o env.lookup? ((binder, value) :: rest) new ↔
      ∃ declared got others, (parameter o env (binder, value)).Declares declared ∧
        HasType o env.lookup? value got ∧ declared.Agrees got ∧
        Binds o env.lookup? rest others ∧ new = (binder.name, declared) :: others := by
  have parameterIff : ∀ {declared got}, HasType o env.lookup? value got →
      ((parameter o env (binder, value)).Declares declared ∧ declared.Agrees got ↔
        binder.type = none ∧ got = declared ∨ binder.Declares declared ∧ declared.Agrees got) := by
    intro declared got valueType
    have clean := (decides_expr valid free value got).mpr valueType
    exact declares_parameter_iff clean (errorFree_of_clean valid free clean)
  constructor
  · rintro (_ | ⟨bare, valueType, others⟩ | ⟨declares, valueType, fits, others⟩)
    · obtain ⟨declares, fits⟩ := (parameterIff valueType).mpr (.inl ⟨bare, rfl⟩)
      exact ⟨_, _, _, declares, valueType, fits, others, rfl⟩
    · obtain ⟨declares, fits⟩ := (parameterIff valueType).mpr (.inr ⟨declares, fits⟩)
      exact ⟨_, _, _, declares, valueType, fits, others, rfl⟩
  · rintro ⟨declared, got, others, declares, valueType, fits, restBinds, rfl⟩
    rcases (parameterIff valueType).mp ⟨declares, fits⟩ with ⟨bare, rfl⟩ | ⟨declares, fits⟩
    · exact .plain bare valueType restBinds
    · exact .written declares valueType fits restBinds

/-- Bindings bind what the parameters in their place declare, as far as the values agree with
it. -/
theorem binds_iff {new : List (String × Ty)} :
    Binds o env.lookup? bound new ↔
      ∃ declared types, List.Forall₂ Binder.Declares (bound.map (parameter o env)) declared ∧
        HaveTypes o env.lookup? (bound.map (·.2)) types ∧ List.Forall₂ Ty.Agrees declared types ∧
        new = ((bound.map (parameter o env)).map (·.name)).zip declared := by
  induction bound generalizing new with
  | nil =>
    constructor
    · rintro ⟨⟩
      exact ⟨[], [], .nil, .nil, .nil, rfl⟩
    · rintro ⟨declared, types, _, _, _, rfl⟩
      exact .nil
  | cons binding rest ih =>
    obtain ⟨binder, value⟩ := binding
    rw [binds_cons_iff valid free]
    constructor
    · rintro ⟨t, got, others, declares, valueType, fits, restBinds, rfl⟩
      obtain ⟨declared, types, restDeclare, restTypes, restFit, rfl⟩ := ih.mp restBinds
      exact ⟨t :: declared, got :: types, .cons declares restDeclare, .cons valueType restTypes,
        .cons fits restFit, rfl⟩
    · rintro ⟨_, _, _ | ⟨declares, restDeclare⟩, _ | ⟨valueType, restTypes⟩,
        _ | ⟨fits, restFit⟩, rfl⟩
      exact ⟨_, _, _, declares, valueType, fits,
        ih.mpr ⟨_, _, restDeclare, restTypes, restFit, rfl⟩, rfl⟩

/-- The rules give a `let` and the call on the spot the same types. -/
theorem hasType_letIn_iff_call {token call lambda : Token} {body : Expr} :
    HasType o env.lookup? (.letIn token bound body) t ↔
      HasType o env.lookup? (calledOnTheSpot o env call lambda bound body) t := by
  rw [calledOnTheSpot, hasType_letIn_iff, hasType_call_lambda_iff]
  constructor
  · rintro ⟨new, values, bodyType⟩
    obtain ⟨declared, types, declares, argTypes, fit, rfl⟩ := (binds_iff valid free).mp values
    exact ⟨declared, types, declares, argTypes, fit, bodyType⟩
  · rintro ⟨declared, types, declares, argTypes, fit, bodyType⟩
    exact ⟨_, (binds_iff valid free).mpr ⟨declared, types, declares, argTypes, fit, rfl⟩,
      bodyType⟩

end

/-- A `let` is in order and has a type exactly when the function with its names as parameters, at
the written types or else at those found for the values, can be called on the values to give that
type. -/
theorem let_agrees_with_call_of_lambda (valid : o.problem? = none) (free : env.All Ty.ErrorFree)
    (token call lambda : Token) (bound : List (Binder × Expr)) (body : Expr) (t : Ty) :
    ((expr o env (.letIn token bound body)).notes = [] ∧
      (expr o env (.letIn token bound body)).value = t) ↔
    ((expr o env (calledOnTheSpot o env call lambda bound body)).notes = [] ∧
      (expr o env (calledOnTheSpot o env call lambda bound body)).value = t) := by
  calc
    _ ↔ HasType o env.lookup? (.letIn token bound body) t := by
      rw [← Diagnosed.eq_pure_iff]
      exact decides_expr valid free _ t
    _ ↔ HasType o env.lookup? (calledOnTheSpot o env call lambda bound body) t :=
      hasType_letIn_iff_call valid free
    _ ↔ _ := by
      rw [← Diagnosed.eq_pure_iff]
      exact (decides_expr valid free _ t).symm

/-- A written type wins over that of the value, and of two equal names the later one counts, in
both forms. -/
theorem let_agrees_with_call_of_lambda_of_equal_names :
    let env := Env.empty.extend "x" Ty.str
    let bound : List (Binder × Expr) :=
      [(⟨.nowhere, "y", none⟩, .var .nowhere "x"),
        (⟨.nowhere, "x", some (.list .num)⟩, .list .nowhere none []),
        (⟨.nowhere, "y", none⟩, .list .nowhere none [])]
    let body : Expr := .binary .nowhere .cons (.var .nowhere "x") (.var .nowhere "y")
    let called := calledOnTheSpot .standard env .nowhere .nowhere bound body
    Options.standard.problem? = none ∧ env.All Ty.ErrorFree ∧
    (expr .standard env called).notes = [] ∧
    (expr .standard env called).value = .pair (.list .num) (.list .unresolved) := by
  intro env bound body called
  have valid : Options.standard.problem? = none := rfl
  have free : env.All Ty.ErrorFree := Env.All.empty.extend .str
  have agrees := let_agrees_with_call_of_lambda valid free .nowhere .nowhere .nowhere bound body
    (.pair (.list .num) (.list .unresolved))
  exact ⟨valid, free, agrees.mp ⟨rfl, rfl⟩⟩

end TypedForms.Check
