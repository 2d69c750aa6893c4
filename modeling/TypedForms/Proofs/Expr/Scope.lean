import TypedForms.Expr

/-! Induction over expressions, the expressions inside of them, the names that are free in them, and
the types written in them. -/
namespace TypedForms.Expr

/-- No expression is absent from the tree. -/
def Gapless (e : Expr) : Prop := .expression ∉ e.gaps

/-- Induction over expressions; a list of parts is taken all at once. -/
@[elab_as_elim]
theorem induction {motive : Expr → Prop} (absent : motive .absent)
    (number : ∀ token value, motive (.number token value))
    (string : ∀ token value, motive (.string token value))
    (bool : ∀ token value, motive (.bool token value)) (unit : ∀ token, motive (.unit token))
    (broken : ∀ token message, motive (.broken token message))
    (var : ∀ token name, motive (.var token name))
    (add : ∀ token operands, (∀ e ∈ operands, motive e) → motive (.add token operands))
    (binary : ∀ token op left right, motive left → motive right →
      motive (.binary token op left right))
    (unary : ∀ token op operand, motive operand → motive (.unary token op operand))
    (branch : ∀ token cond yes no, motive cond → motive yes → motive no →
      motive (.branch token cond yes no))
    (letIn : ∀ token bindings body, (∀ binding ∈ bindings, motive binding.2) → motive body →
      motive (.letIn token bindings body))
    (letrec : ∀ token bindings body, (∀ binding ∈ bindings, motive binding.2) → motive body →
      motive (.letrec token bindings body))
    (lambda : ∀ token params body, motive body → motive (.lambda token params body))
    (call : ∀ token operator args, motive operator → (∀ e ∈ args, motive e) →
      motive (.call token operator args))
    (list : ∀ token elem elems, (∀ e ∈ elems, motive e) → motive (.list token elem elems))
    (read : ∀ token, motive (.read token))
    (readFrom : ∀ token source, motive source → motive (.readFrom token source))
    (e : Expr) : motive e := by
  refine @Expr.rec motive (fun es => ∀ e ∈ es, motive e)
    (fun bindings => ∀ binding ∈ bindings, motive binding.2) (fun binding => motive binding.2)
    absent number string bool unit broken var add binary unary branch letIn letrec lambda call
    list read readFrom ?_ ?_ ?_ ?_ (fun _ _ value => value) e
  · intro e member
    contradiction
  · intro head tail first rest e member
    rcases List.mem_cons.mp member with rfl | member
    · exact first
    · exact rest e member
  · intro binding member
    contradiction
  · intro head tail first rest binding member
    rcases List.mem_cons.mp member with rfl | member
    · exact first
    · exact rest binding member

mutual

/-- The expression itself and all expressions inside of it, in the order of the source. -/
def subexprs (e : Expr) : List Expr :=
  e :: match e with
    | .absent | .number .. | .string .. | .bool .. | .unit _ | .broken .. | .var .. | .read _ => []
    | .add _ operands => subexprsAll operands
    | .binary _ _ left right => subexprs left ++ subexprs right
    | .unary _ _ operand => subexprs operand
    | .branch _ cond yes no => subexprs cond ++ subexprs yes ++ subexprs no
    | .letIn _ bindings body | .letrec _ bindings body => subexprsValues bindings ++ subexprs body
    | .lambda _ _ body => subexprs body
    | .call _ operator args => subexprs operator ++ subexprsAll args
    | .list _ _ elems => subexprsAll elems
    | .readFrom _ source => subexprs source

def subexprsAll : List Expr → List Expr
  | [] => []
  | e :: es => subexprs e ++ subexprsAll es

/-- The expressions inside of the values in bindings. -/
def subexprsValues : List (Binder × Expr) → List Expr
  | [] => []
  | (_, value) :: rest => subexprs value ++ subexprsValues rest

end

theorem subexprsAll_eq {es : List Expr} : subexprsAll es = es.flatMap subexprs := by
  induction es with
  | nil => rfl
  | cons e es ih => rw [subexprsAll, ih, List.flatMap_cons]

theorem subexprsValues_eq {bindings : List (Binder × Expr)} :
    subexprsValues bindings = bindings.flatMap (·.2.subexprs) := by
  induction bindings with
  | nil => rfl
  | cons binding rest ih => rw [subexprsValues, ih, List.flatMap_cons]

mutual

/-- The names that an expression takes from its surroundings, once for each occurrence. -/
def freeNames : Expr → List String
  | .absent | .number .. | .string .. | .bool .. | .unit _ | .broken .. | .read _ => []
  | .var _ name => [name]
  | .add _ operands => freeNamesAll operands
  | .binary _ _ left right => freeNames left ++ freeNames right
  | .unary _ _ operand => freeNames operand
  | .branch _ cond yes no => freeNames cond ++ freeNames yes ++ freeNames no
  | .letIn _ bindings body =>
    freeNamesValues bindings ++
      (freeNames body).filter fun name => !(bindings.map (·.1.name)).contains name
  | .letrec _ bindings body =>
    (freeNamesValues bindings ++ freeNames body).filter fun name =>
      !(bindings.map (·.1.name)).contains name
  | .lambda _ params body =>
    (freeNames body).filter fun name => !(params.map (·.name)).contains name
  | .call _ operator args => freeNames operator ++ freeNamesAll args
  | .list _ _ elems => freeNamesAll elems
  | .readFrom _ source => freeNames source

def freeNamesAll : List Expr → List String
  | [] => []
  | e :: es => freeNames e ++ freeNamesAll es

/-- The free names of the values in bindings. -/
def freeNamesValues : List (Binder × Expr) → List String
  | [] => []
  | (_, value) :: rest => freeNames value ++ freeNamesValues rest

end

theorem freeNamesAll_eq {es : List Expr} : freeNamesAll es = es.flatMap freeNames := by
  induction es with
  | nil => rfl
  | cons e es ih => rw [freeNamesAll, ih, List.flatMap_cons]

theorem freeNamesValues_eq {bindings : List (Binder × Expr)} :
    freeNamesValues bindings = bindings.flatMap (·.2.freeNames) := by
  induction bindings with
  | nil => rfl
  | cons binding rest ih => rw [freeNamesValues, ih, List.flatMap_cons]

theorem mem_freeNamesAll {name : String} {es : List Expr} :
    name ∈ freeNamesAll es ↔ ∃ e ∈ es, name ∈ e.freeNames := by
  induction es with
  | nil => simp [freeNamesAll]
  | cons e es ih => simp [freeNamesAll, ih]

theorem mem_freeNamesValues {name : String} {bindings : List (Binder × Expr)} :
    name ∈ freeNamesValues bindings ↔ ∃ binding ∈ bindings, name ∈ binding.2.freeNames := by
  induction bindings with
  | nil => simp [freeNamesValues]
  | cons binding rest ih => simp [freeNamesValues, ih]

mutual

/-- The types written in an expression, at any depth. -/
def writtenTypes : Expr → List Ty
  | .absent | .number .. | .string .. | .bool .. | .unit _ | .broken .. | .var .. | .read _ => []
  | .add _ operands => writtenTypesAll operands
  | .binary _ _ left right => writtenTypes left ++ writtenTypes right
  | .unary _ _ operand => writtenTypes operand
  | .branch _ cond yes no => writtenTypes cond ++ writtenTypes yes ++ writtenTypes no
  | .letIn _ bindings body | .letrec _ bindings body =>
    writtenTypesBindings bindings ++ writtenTypes body
  | .lambda _ params body => params.filterMap (·.type) ++ writtenTypes body
  | .call _ operator args => writtenTypes operator ++ writtenTypesAll args
  | .list _ elem elems => elem.toList ++ writtenTypesAll elems
  | .readFrom _ source => writtenTypes source

def writtenTypesAll : List Expr → List Ty
  | [] => []
  | e :: es => writtenTypes e ++ writtenTypesAll es

/-- The types written in bindings: those of their names, and those in their values. -/
def writtenTypesBindings : List (Binder × Expr) → List Ty
  | [] => []
  | (binder, value) :: rest =>
    binder.type.toList ++ writtenTypes value ++ writtenTypesBindings rest

end

theorem mem_writtenTypesAll {t : Ty} {es : List Expr} :
    t ∈ writtenTypesAll es ↔ ∃ e ∈ es, t ∈ e.writtenTypes := by
  induction es with
  | nil => simp [writtenTypesAll]
  | cons e es ih => simp [writtenTypesAll, ih]

theorem mem_writtenTypesBindings {t : Ty} {bindings : List (Binder × Expr)} :
    t ∈ writtenTypesBindings bindings ↔
      ∃ binding ∈ bindings, binding.1.type = some t ∨ t ∈ binding.2.writtenTypes := by
  induction bindings with
  | nil => simp [writtenTypesBindings]
  | cons binding rest ih => simp [writtenTypesBindings, ih, or_assoc]

end TypedForms.Expr
