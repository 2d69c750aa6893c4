import TypedForms.Proofs.Check.Absorption
import TypedForms.Proofs.Strict.Ty

/-! The checker with its partial operations in the open: a type is taken apart after a test of
its kind, parameters, arguments and elements are taken by their places, types are only joined when
they are compatible, and names are only bound to as many types. Each of these stops the check
outside of its domain. On a tree without absent expressions none of them ever does. -/
namespace TypedForms

namespace Check.Strict

open Guarded

/-- Compatible types only. -/
def join (left right : Ty) : Guarded TypeError Ty := do
  if ← demand (left.compatible? right) then demand (left.join? right) else stop

/-- As many names as types only. -/
def extend (env : Env Ty) (names : List String) (types : List Ty) : Guarded TypeError (Env Ty) :=
  demand (env.extendPaired names types).toOption

def reconcile (form : BindingForm) (name : String) (value : Token) (declared got : Ty) :
    Guarded TypeError Ty := do
  if declared.isError then pure declared
  else if got.isError then pure got
  else if ← demand (declared.compatible? got) then pure declared
  else
    let clash := total (report value (.declared form name declared got))
    match declared.func?, got.func? with
    | some (params, result), some (params', result') =>
      if params.length = params'.length then
        if ← demand ((Ty.func params result').compatible? (.func params' result')) then
          total (report value (.declaredResult form name result result'))
        else clash
      else clash
    | _, _ => clash

def branchRule (form condition : Token) (cond yes no : Ty) : Guarded TypeError Ty := do
  let cond ← total (require condition cond (cond.kind == .bool) (.condition cond))
  match Ty.firstError? [yes, no] with
  | some message => pure (orError [cond] (.error message))
  | none =>
    if ← demand (yes.compatible? no) then
      if cond.isError then pure cond else join yes no
    else do
      let clash ← total (report form (.branches yes no))
      pure (orError [cond] clash)

/-- The parameter and the argument are taken by their place. -/
def argument (params : List Ty) (args : List Expr) (index : Nat) (t : Ty) :
    Guarded TypeError Ty := do
  if t.isError then pure t
  else
    let param ← demand params[index]?
    if ← demand (param.compatible? t) then pure t
    else
      let arg ← demand args[index]?
      total (report arg.token (.argument (index + 1) param t))

def arguments (params : List Ty) (args : List Expr) :
    (index : Nat) → (types : List Ty) → Guarded TypeError (List Ty)
  | _, [] => pure []
  | index, t :: types => do
    let found ← argument params args index t
    let others ← arguments params args (index + 1) types
    pure (found :: others)

def callRule (form operator : Token) (args : List Expr) (callee : Ty) (types : List Ty) :
    Guarded TypeError Ty :=
  if callee.isError then pure callee
  else
    match callee.func? with
    | none => total (report operator (.notFunction callee))
    | some (params, result) =>
      if types.length = params.length then do
        let found ← arguments params args 0 types
        pure (orError (result :: found) result)
      else total (report form (.argumentCount callee params.length types.length))

def elements (elems : List Expr) :
    (index : Nat) → (elem : Ty) → (types : List Ty) → Guarded TypeError (List Ty × Ty)
  | _, elem, [] => pure ([], elem)
  | index, elem, t :: types => do
    if t.isError || elem.isError then
      let (errors, final) ← elements elems (index + 1) elem types
      pure (t :: errors, final)
    else if ← demand (elem.compatible? t) then
      let elem ← join elem t
      elements elems (index + 1) elem types
    else
      let part ← demand elems[index]?
      let clash ← total (report part.token (.element (index + 1) elem t))
      let (errors, final) ← elements elems (index + 1) elem types
      pure (clash :: errors, final)

def listRule (elems : List Expr) (elem : Ty) (types : List Ty) : Guarded TypeError Ty := do
  let (errors, final) ← elements elems 0 elem types
  pure (orError (elem :: errors) (.list final))

def assignRule (value : Token) (location stored : Ty) : Guarded TypeError Ty := do
  match Ty.firstError? [location, stored] with
  | some message => pure (.error message)
  | none =>
    let cell ← demand location.ref?
    if ← demand (cell.compatible? stored) then pure .unit
    else total (report value (.cell cell stored))

/-- Takes a pair apart after a test that it is one. -/
def project (part : Ty × Ty → Ty) (op : UnaryOp) (anchor : Token) (t : Ty) :
    Guarded TypeError Ty := do
  let t ← total (require anchor t (t.kind == .pair) (.notPair op.spelling t))
  if t.isError then pure t
  else do
    let parts ← demand t.pair?
    pure (part parts)

def unaryRule (o : Options) (form : Token) (op : UnaryOp) (anchor : Token) (t : Ty) :
    Guarded TypeError Ty :=
  match op with
  | .car => project (·.1) op anchor t
  | .cdr => project (·.2) op anchor t
  | .deref => do
    let t ← total (reference op.spelling anchor t)
    if t.isError then pure t else demand t.ref?
  | _ => total (Check.unaryRule o form op anchor t)

def bindingType (binder : Binder) (value : Token) (got : Ty) : Guarded TypeError Ty :=
  match binder.type with
  | none => pure got
  | some _ => do
    let declared ← total (annotated binder)
    reconcile .letIn binder.name value declared got

mutual

def expr (o : Options) (env : Env Ty) : Expr → Guarded TypeError Ty
  | .absent => stop
  | .number .. => pure .num
  | .string .. => pure .str
  | .bool .. => pure .bool
  | .unit _ => pure .unit
  | .broken token message => total (report token (.broken message))
  | .var token name =>
    match env.lookup? name with
    | some t => pure t
    | none => total (report token (.unbound name))
  | .add _ addends => do
    let found ← operands o env "+" 1 addends
    pure (orError found .num)
  | .binary _ op left right =>
    match op.numericResult? with
    | some result => do
      let leftType ← expr o env left
      let leftType ← total (operand 1 op.spelling left.token leftType)
      let rightType ← expr o env right
      let rightType ← total (operand 2 op.spelling right.token rightType)
      pure (orError [leftType, rightType] result)
    | none =>
      if op = .cons then do
        let leftType ← expr o env left
        let rightType ← expr o env right
        pure (orError [leftType, rightType] (.pair leftType rightType))
      else do
        let location ← expr o env left
        let location ← total (reference op.spelling left.token location)
        let stored ← expr o env right
        assignRule right.token location stored
  | .unary token op inner => do
    let t ← expr o env inner
    unaryRule o token op inner.token t
  | .branch token cond yes no => do
    let condType ← expr o env cond
    let yesType ← expr o env yes
    let noType ← expr o env no
    branchRule token cond.token condType yesType noType
  | .letIn _ bound body => do
    let types ← bindings o env bound
    let inner ← extend env (bound.map (·.1.name)) types
    let bodyType ← expr o inner body
    pure (orError types bodyType)
  | .letrec _ bound body => do
    let declared ← total (annotations (bound.map (·.1)))
    let inner ← extend env (bound.map (·.1.name)) declared
    let values ← recursiveBindings o inner declared 0 bound
    let bodyType ← expr o inner body
    pure (orError (declared ++ values) bodyType)
  | .lambda _ params body => do
    let types ← total (annotations params)
    let inner ← extend env (params.map (·.name)) types
    let bodyType ← expr o inner body
    pure (orError (types ++ [bodyType]) (.func types bodyType))
  | .call token operator args => do
    let callee ← expr o env operator
    let types ← exprs o env args
    callRule token operator.token args callee types
  | .list token elem elems => do
    let elemType ← total (elementType token elem)
    let types ← exprs o env elems
    listRule elems elemType types
  | .read _ => pure o.inputType
  | .readFrom _ source => do
    let t ← expr o env source
    let t ← total (require source.token t (t.kind == .str) (.source t))
    pure (orError [t] o.inputType)

def exprs (o : Options) (env : Env Ty) : List Expr → Guarded TypeError (List Ty)
  | [] => pure []
  | e :: es => do
    let t ← expr o env e
    let ts ← exprs o env es
    pure (t :: ts)

def operands (o : Options) (env : Env Ty) (op : String) :
    (index : Nat) → List Expr → Guarded TypeError (List Ty)
  | _, [] => pure []
  | index, e :: es => do
    let t ← expr o env e
    let t ← total (operand index op e.token t)
    let ts ← operands o env op (index + 1) es
    pure (t :: ts)

def bindings (o : Options) (env : Env Ty) : List (Binder × Expr) → Guarded TypeError (List Ty)
  | [] => pure []
  | (binder, value) :: rest => do
    let got ← expr o env value
    let t ← bindingType binder value.token got
    let others ← bindings o env rest
    pure (t :: others)

/-- Declared types are taken by the place of the binding. -/
def recursiveBindings (o : Options) (inner : Env Ty) (declared : List Ty) :
    (index : Nat) → List (Binder × Expr) → Guarded TypeError (List Ty)
  | _, [] => pure []
  | index, (binder, value) :: rest => do
    let got ← expr o inner value
    let type ← demand declared[index]?
    let t ← reconcile .letrec binder.name value.token type got
    let others ← recursiveBindings o inner declared (index + 1) rest
    pure (t :: others)

end

def decl (o : Options) (env : Env Ty) (d : Decl) : Guarded TypeError (Ty × Env Ty) :=
  match d.binder.type with
  | none => do
    let t ← expr o env d.value
    pure (t, env.extend d.binder.name t)
  | some _ => do
    let declared ← total (annotated d.binder)
    let inner := env.extend d.binder.name declared
    let got ← expr o inner d.value
    let t ← reconcile .define d.binder.name d.value.token declared got
    pure (t, inner)

def decls (o : Options) : Env Ty → List Decl → Guarded TypeError (Env Ty)
  | env, [] => pure env
  | env, d :: ds => do
    let (_, env) ← decl o env d
    decls o env ds

def program (o : Options) (env : Env Ty) (p : Program) : Guarded TypeError (Ty × Env Ty) := do
  let env ← decls o env p.decls
  let t ← expr o env p.result
  pure (t, env)

end Check.Strict

namespace Check

variable {α β γ : Type} {o : Options} {env : Env Ty}

theorem lapse?_append_eq_none_iff {first second : List (Diagnostic TypeError)} :
    lapse? (first ++ second) = none ↔ lapse? first = none ∧ lapse? second = none := by
  simp [lapse?, List.find?_append]

theorem lapse?_report {anchor : Token} {cause : TypeError} (fault : cause.category ≠ .lapse) :
    lapse? (report anchor cause).notes = none := by
  simp [lapse?, report, fault]

theorem lapse?_require {anchor : Token} {t : Ty} {fits : Bool} {cause : TypeError}
    (fault : cause.category ≠ .lapse) : lapse? (require anchor t fits cause).notes = none := by
  unfold require
  split
  · rfl
  · exact lapse?_report fault

/-- On whole trees a strict computation comes to the same as the one it mirrors. On any others it
stops, and the one it mirrors notes a lapse. -/
structure Mirrors (whole : Prop) (x : Guarded TypeError α) (y : Checked α) : Prop where
  runs : whole → x = .total y
  stops : ¬ whole → x = .stop
  lapseIff : lapse? y.notes = none ↔ whole

namespace Mirrors

variable {whole whole' : Prop} {x : Guarded TypeError α} {y : Checked α}

/-- A rule stops on no types. -/
theorem rule (runs : x = .total y) (free : lapse? y.notes = none) : Mirrors True x y :=
  ⟨fun _ => runs, fun never => absurd trivial never, by simp [free]⟩

theorem total (free : lapse? y.notes = none) : Mirrors True (.total y) y := rule rfl free

theorem pure {a : α} : Mirrors True (Pure.pure a) (Pure.pure a) := rule Guarded.total_pure.symm rfl

theorem report {anchor : Token} {cause : TypeError} (fault : cause.category ≠ .lapse) :
    Mirrors True (.total (report anchor cause)) (report anchor cause) := total (lapse?_report fault)

theorem congr (mirrors : Mirrors whole x y) (iff : whole ↔ whole') : Mirrors whole' x y :=
  ⟨fun known => mirrors.runs (iff.mpr known), fun known => mirrors.stops (mt iff.mp known),
    mirrors.lapseIff.trans iff⟩

/-- The whole of two parts is that both are whole. What comes second goes on from the result of
what comes first, of which it may see a part only. -/
theorem bindSeen {y : Checked γ} {see : γ → α} {f : α → Guarded TypeError β} {g : γ → Checked β}
    (first : Mirrors whole x (see <$> y))
    (next : whole → Mirrors whole' (f (see y.value)) (g y.value)) :
    Mirrors (whole ∧ whole') (x >>= f) (y >>= g) := by
  have notes : (see <$> y).notes = y.notes := Diagnosed.notes_map see y
  by_cases known : whole
  · have second := next known
    have start := first.runs known
    refine ⟨?_, ?_, ?_⟩
    · rintro ⟨_, known'⟩
      rw [start]
      funext before
      simp [Guarded.bind_apply, Guarded.total, second.runs known']
    · intro broken
      rw [start]
      funext before
      have known' : ¬ whole' := fun known' => broken ⟨known, known'⟩
      simp [Guarded.bind_apply, Guarded.total, second.stops known', Guarded.stop]
    · rw [Diagnosed.notes_bind, lapse?_append_eq_none_iff, ← notes, first.lapseIff,
        second.lapseIff]
  · refine ⟨fun both => absurd both.1 known, fun _ => ?_, ?_⟩
    · rw [first.stops known, Guarded.stop_bind]
    · rw [Diagnosed.notes_bind, lapse?_append_eq_none_iff, ← notes, first.lapseIff]
      simp [known]

theorem bind {f : α → Guarded TypeError β} {g : α → Checked β} (first : Mirrors whole x y)
    (next : whole → Mirrors whole' (f y.value) (g y.value)) :
    Mirrors (whole ∧ whole') (x >>= f) (y >>= g) :=
  @bindSeen _ _ _ _ _ _ _ id _ _ (by simpa using first) next

theorem thenRule {f : α → Guarded TypeError β} {g : α → Checked β} (first : Mirrors whole x y)
    (next : Mirrors True (f y.value) (g y.value)) : Mirrors whole (x >>= f) (y >>= g) :=
  (first.bind fun _ => next).congr (and_iff_left trivial)

theorem seenByRule {y : Checked γ} {see : γ → α} {f : α → Guarded TypeError β}
    {g : γ → Checked β} (first : Mirrors whole x (see <$> y))
    (next : Mirrors True (f (see y.value)) (g y.value)) : Mirrors whole (x >>= f) (y >>= g) :=
  (first.bindSeen fun _ => next).congr (and_iff_left trivial)

theorem afterTotal {f : α → Guarded TypeError β} {g : α → Checked β}
    (free : lapse? y.notes = none) (next : Mirrors whole (f y.value) (g y.value)) :
    Mirrors whole (.total y >>= f) (y >>= g) :=
  ((total free).bind fun _ => next).congr (and_iff_right trivial)

end Mirrors

/-! The rules one by one. -/

open Guarded

theorem mirrors_reconcile {form : BindingForm} {name : String} {value : Token}
    {declared got : Ty} :
    Mirrors True (Strict.reconcile form name value declared got)
      (reconcile form name value declared got) := by
  have clash : Mirrors True (.total (report value (.declared form name declared got))) _ :=
    .report (by simp [TypeError.category])
  unfold Strict.reconcile reconcile
  simp only [Ty.compatible?_eq, demand_some, pure_bind]
  by_cases erroneous : declared.isError = true
  · simpa only [erroneous, if_true] using .pure
  by_cases erroneous' : got.isError = true
  · simpa only [erroneous, erroneous', if_true, if_false] using .pure
  by_cases fits : declared.compatible got = true
  · simpa only [erroneous, erroneous', fits, if_true, if_false] using .pure
  simp only [erroneous, erroneous', fits]
  cases declared with
  | func params result =>
    cases got with
    | func params' result' =>
      simp only [Ty.func?]
      by_cases count : params.length = params'.length
      · cases resultOnly : (Ty.func params result').compatible (.func params' result') with
        | true => simpa [count, resultOnly] using .report (by simp [TypeError.category])
        | false => simpa [count, resultOnly] using clash
      · simpa [count] using clash
    | _ => exact clash
  | _ => exact clash

theorem mirrors_join {left right : Ty} (fits : left.compatible right = true) :
    Mirrors True (Strict.join left right) (joined left right) := by
  obtain ⟨j, joinedEq, found⟩ := exists_joined fits
  rw [joinedEq]
  simpa [Strict.join, Ty.compatible?_eq, fits, found] using Mirrors.pure

theorem mirrors_branchRule {form condition : Token} {cond yes no : Ty} :
    Mirrors True (Strict.branchRule form condition cond yes no)
      (branchRule form condition cond yes no) := by
  unfold Strict.branchRule branchRule
  refine .afterTotal (lapse?_require (by simp [TypeError.category])) ?_
  simp only [Ty.compatible?_eq, demand_some, pure_bind]
  cases Ty.firstError? [yes, no] with
  | some message => exact .pure
  | none =>
    dsimp only
    split
    next fits =>
      split
      · exact .pure
      · exact mirrors_join fits
    · exact .afterTotal (lapse?_report (by simp [TypeError.category])) .pure

theorem mirrors_arguments {params params' : List Ty} {args args' : List Expr} {types : List Ty}
    {index : Nat} (paramsSuffix : params.drop index = params')
    (argsSuffix : args.drop index = args') (paramsCount : types.length = params'.length)
    (argsCount : types.length = args'.length) :
    Mirrors True (Strict.arguments params args index types)
      (arguments (index + 1) params' ((args'.map Expr.token).zip types)) := by
  induction types generalizing index params' args' with
  | nil =>
    simp only [Strict.arguments, List.zip_nil_right]
    cases params' <;> exact .pure
  | cons t types ih =>
    obtain ⟨param, params', rfl⟩ := List.exists_cons_of_length_eq_add_one paramsCount.symm
    obtain ⟨arg, args', rfl⟩ := List.exists_cons_of_length_eq_add_one argsCount.symm
    obtain ⟨paramFound, paramsSuffix⟩ := getElem?_of_drop paramsSuffix
    obtain ⟨argFound, argsSuffix⟩ := getElem?_of_drop argsSuffix
    have rest := ih paramsSuffix argsSuffix (by simpa using paramsCount)
      (by simpa using argsCount)
    have first : Mirrors True (Strict.argument params args index t)
        (require arg.token t (param.compatible t) (.argument (index + 1) param t)) := by
      unfold Strict.argument require
      by_cases erroneous : t.isError = true
      · simpa [erroneous] using .pure
      by_cases fits : param.compatible t = true
      · simpa [erroneous, fits, paramFound, Ty.compatible?_eq] using .pure
      · simpa [erroneous, fits, paramFound, argFound, Ty.compatible?_eq] using
          .report (by simp [TypeError.category])
    simp only [Strict.arguments, List.map_cons, List.zip_cons_cons, arguments]
    exact .thenRule first (.thenRule rest .pure)

theorem mirrors_callRule (form operator : Token) (callee : Ty) {args : List Expr}
    {types : List Ty} (count : types.length = args.length) :
    Mirrors True (Strict.callRule form operator args callee types)
      (callRule form operator callee ((args.map Expr.token).zip types)) := by
  have zipLength : ((args.map Expr.token).zip types).length = types.length := by simp [count]
  unfold Strict.callRule callRule
  rw [zipLength]
  cases callee with
  | func params result =>
    simp only [Ty.isError_func, Bool.false_eq_true, if_false, Ty.func?]
    split
    next same =>
      exact .thenRule (mirrors_arguments List.drop_zero List.drop_zero same count) .pure
    · exact .report (by simp [TypeError.category])
  | error message => exact .pure
  | _ => exact .report (by simp [TypeError.category])

theorem mirrors_elements (elem : Ty) {elems elems' : List Expr} {types : List Ty} {index : Nat}
    (suffix : elems.drop index = elems') (count : types.length = elems'.length) :
    Mirrors True (Strict.elements elems index elem types)
      (elements (index + 1) elem ((elems'.map Expr.token).zip types)) := by
  induction types generalizing index elems' elem with
  | nil =>
    simp only [Strict.elements, List.zip_nil_right]
    exact .pure
  | cons t types ih =>
    obtain ⟨part, elems', rfl⟩ := List.exists_cons_of_length_eq_add_one count.symm
    obtain ⟨found, suffix⟩ := getElem?_of_drop suffix
    have rest := fun elem => ih elem suffix (by simpa using count)
    simp only [Strict.elements, List.map_cons, List.zip_cons_cons, elements,
      Ty.compatible?_eq, demand_some, pure_bind, found]
    split
    · exact .thenRule (rest elem) .pure
    · split
      next fits => exact .thenRule (mirrors_join fits) (rest _)
      · exact .afterTotal (lapse?_report (by simp [TypeError.category]))
          (.thenRule (rest elem) .pure)

theorem mirrors_assignRule {value : Token} {location stored : Ty}
    (shape : location.isError = true ∨ location.kind = .ref) :
    Mirrors True (Strict.assignRule value location stored) (assignRule value location stored) := by
  cases location with
  | error message => exact .pure
  | ref cell =>
    cases erroneous : stored.isError with
    | true =>
      obtain ⟨message, rfl⟩ := Ty.eq_error_of_isError erroneous
      exact .pure
    | false =>
      have sound : Ty.firstError? [.ref cell, stored] = none :=
        Ty.firstError?_eq_none_iff.mpr (by simp [erroneous])
      simp only [Strict.assignRule, assignRule, sound, erroneous, Ty.ref?, demand_some,
        Ty.compatible?_eq, pure_bind, Bool.false_eq_true, if_false]
      split
      · exact .pure
      · exact .report (by simp [TypeError.category])
  | _ => simp [Ty.isError, Ty.kind] at shape

/-- A test of a kind leaves an error, or a type of that kind. -/
theorem isError_or_kind_require (anchor : Token) (t : Ty) (kind : Ty.Kind) (cause : TypeError) :
    (require anchor t (t.kind == kind) cause).value.isError = true ∨
      (require anchor t (t.kind == kind) cause).value.kind = kind := by
  rcases require_cases anchor t (t.kind == kind) cause with ⟨passed, fits⟩ | ⟨reported, _⟩
  · rw [passed]
    simpa using fits
  · rw [reported]
    exact .inl rfl

theorem mirrors_project {part : Ty × Ty → Ty} {op : UnaryOp} {anchor : Token} {t : Ty}
    {pick : Ty → Checked Ty}
    (pair : ∀ left right, pick (.pair left right) = pure (part (left, right)))
    (error : ∀ message, pick (.error message) = pure (.error message)) :
    Mirrors True (Strict.project part op anchor t)
      (require anchor t (t.kind == .pair) (.notPair op.spelling t) >>= pick) := by
  refine .afterTotal (lapse?_require (by simp [TypeError.category])) ?_
  have shape := isError_or_kind_require anchor t .pair (.notPair op.spelling t)
  generalize (require anchor t (t.kind == .pair) (.notPair op.spelling t)).value = found at shape
  cases found with
  | error message => simpa [error] using Mirrors.pure
  | pair left right => simpa [pair, Ty.isError, Ty.kind, Ty.pair?] using Mirrors.pure
  | _ => simp [Ty.isError, Ty.kind] at shape

theorem lapse?_evalRule {form code : Token} {t : Ty} :
    lapse? (evalRule o form code t).notes = none := by
  unfold evalRule
  split
  · rfl
  split
  · refine lapse?_append_eq_none_iff.mpr ⟨lapse?_require ?_, rfl⟩
    simp [TypeError.category]
  · exact lapse?_report (by simp [TypeError.category])

theorem mirrors_unaryRule {form : Token} {op : UnaryOp} {anchor : Token} {t : Ty} :
    Mirrors True (Strict.unaryRule o form op anchor t) (unaryRule o form op anchor t) := by
  cases op with
  | car | cdr => exact mirrors_project (fun _ _ => rfl) fun _ => rfl
  | deref =>
    refine .afterTotal (lapse?_require (by simp [TypeError.category])) ?_
    have shape := isError_or_kind_require anchor t .ref (.notReference UnaryOp.deref.spelling t)
    rw [← reference] at shape
    generalize (reference UnaryOp.deref.spelling anchor t).value = found at shape
    cases found with
    | error message => exact .pure
    | ref elem => exact .pure
    | _ => simp [Ty.isError, Ty.kind] at shape
  | null | free =>
    refine .total (lapse?_append_eq_none_iff.mpr ⟨lapse?_require ?_, rfl⟩)
    simp [TypeError.category]
  | ref => exact .total rfl
  | eval => exact .total lapse?_evalRule

theorem lapse?_annotated {binder : Binder} : lapse? (annotated binder).notes = none := by
  unfold annotated written
  split
  · exact lapse?_report (by simp [TypeError.category])
  split
  · exact lapse?_report (by simp [TypeError.category])
  · rfl

theorem lapse?_annotations {binders : List Binder} :
    lapse? (annotations binders).notes = none := by
  unfold annotations
  induction binders with
  | nil => rfl
  | cons binder binders ih =>
    simp only [List.map_cons, Diagnosed.sequence, Diagnosed.notes_bind, Diagnosed.notes_pure,
      List.append_nil, lapse?_append_eq_none_iff]
    exact ⟨lapse?_annotated, ih⟩

theorem lapse?_elementType {token : Token} {elem : Option Ty} :
    lapse? (elementType token elem).notes = none := by
  unfold elementType written
  split
  · rfl
  split
  · exact lapse?_report (by simp [TypeError.category])
  · rfl

theorem mirrors_bindingType {binder : Binder} {value : Token} {got : Ty} :
    Mirrors True (Strict.bindingType binder value got) (bindingType binder value got) := by
  unfold Strict.bindingType bindingType
  cases binder.type with
  | none => exact .pure
  | some type => exact .afterTotal lapse?_annotated mirrors_reconcile

/-- Names are bound to as many types. -/
theorem extend_eq {names : List String} {types : List Ty} (count : names.length = types.length) :
    Strict.extend env names types = pure (env.extendAll (names.zip types)) := by
  simp [Strict.extend, Env.extendPaired, count, Except.toOption]

/-! The parts of forms. -/

theorem mirrors_exprs {es : List Expr}
    (each : ∀ e ∈ es, Mirrors e.Gapless (Strict.expr o env e) (expr o env e)) :
    Mirrors (.expression ∉ Expr.gapsAll es) (Strict.exprs o env es)
      ((·.map (·.2)) <$> exprs o env es) := by
  induction es with
  | nil => exact Mirrors.pure.congr (by simp [Expr.gapsAll])
  | cons e es ih =>
    have unseen : (·.map (·.2)) <$> exprs o env (e :: es) = (do
        let t ← expr o env e
        let ts ← (·.map (·.2)) <$> exprs o env es
        pure (t :: ts)) := by
      simp [exprs_cons]
    rw [unseen]
    have rest := ih fun e member => each e (List.mem_cons_of_mem _ member)
    refine Mirrors.congr ((each e List.mem_cons_self).bind fun _ => rest.thenRule .pure) ?_
    simp [Expr.gapsAll, Expr.Gapless]

theorem tokens_exprs {es : List Expr} :
    (exprs o env es).value.map (·.1) = es.map Expr.token := by
  induction es with
  | nil => rfl
  | cons e es ih => simpa [exprs_cons] using ih

/-- The types of expressions with their tokens, put together again. -/
theorem zip_tokens_exprs {es : List Expr} :
    (es.map Expr.token).zip ((exprs o env es).value.map (·.2)) = (exprs o env es).value := by
  rw [← tokens_exprs, List.zip_map']
  simp

theorem length_types_exprs (o : Options) (env : Env Ty) (es : List Expr) :
    ((exprs o env es).value.map (·.2)).length = es.length := by
  rw [← List.length_map Expr.token, ← tokens_exprs, List.length_map, List.length_map]

theorem mirrors_operands {op : String} {index : Nat} {es : List Expr}
    (each : ∀ e ∈ es, Mirrors e.Gapless (Strict.expr o env e) (expr o env e)) :
    Mirrors (.expression ∉ Expr.gapsAll es) (Strict.operands o env op index es)
      (operands o env op index es) := by
  induction es generalizing index with
  | nil => exact Mirrors.pure.congr (by simp [Expr.gapsAll])
  | cons e es ih =>
    have rest := @ih (index + 1) fun e member => each e (List.mem_cons_of_mem _ member)
    have free : lapse? (operand index op e.token (expr o env e).value).notes = none :=
      lapse?_require (by simp [TypeError.category])
    refine Mirrors.congr ((each e List.mem_cons_self).bind fun _ =>
      .afterTotal free (rest.thenRule .pure)) ?_
    simp [Expr.gapsAll, Expr.Gapless]

theorem mirrors_bindings {bound : List (Binder × Expr)}
    (each : ∀ binding ∈ bound,
      Mirrors binding.2.Gapless (Strict.expr o env binding.2) (expr o env binding.2)) :
    Mirrors (.expression ∉ Expr.gapsBindings bound) (Strict.bindings o env bound)
      ((·.map (·.2)) <$> bindings o env bound) := by
  induction bound with
  | nil => exact Mirrors.pure.congr (by simp [Expr.gapsBindings])
  | cons binding bound ih =>
    obtain ⟨binder, value⟩ := binding
    have unseen : (·.map (·.2)) <$> bindings o env ((binder, value) :: bound) = (do
        let got ← expr o env value
        let t ← bindingType binder value.token got
        let ts ← (·.map (·.2)) <$> bindings o env bound
        pure (t :: ts)) := by
      simp [bindings_cons]
    rw [unseen]
    have rest := ih fun binding member => each binding (List.mem_cons_of_mem _ member)
    refine Mirrors.congr ((each _ List.mem_cons_self).bind fun _ =>
      (mirrors_bindingType.bind fun _ => rest.thenRule .pure)) ?_
    simp [Expr.gapsBindings, Expr.Gapless]

theorem mirrors_recursiveBindings {declared : List Ty} {bound : List (Binder × Expr)}
    {index : Nat} (suffix : declared.drop index = bound.map fun b => (annotated b.1).value)
    (each : ∀ binding ∈ bound,
      Mirrors binding.2.Gapless (Strict.expr o env binding.2) (expr o env binding.2)) :
    Mirrors (.expression ∉ Expr.gapsBindings bound)
      (Strict.recursiveBindings o env declared index bound) (recursiveBindings o env bound) := by
  induction bound generalizing index with
  | nil => exact Mirrors.pure.congr (by simp [Expr.gapsBindings])
  | cons binding bound ih =>
    obtain ⟨binder, value⟩ := binding
    obtain ⟨found, suffix⟩ := getElem?_of_drop suffix
    have rest := ih suffix fun binding member => each binding (List.mem_cons_of_mem _ member)
    simp only [Strict.recursiveBindings, found, demand_some, pure_bind]
    refine Mirrors.congr ((each _ List.mem_cons_self).bind fun _ =>
      (mirrors_reconcile.bind fun _ => rest.thenRule .pure)) ?_
    simp [Expr.gapsBindings, Expr.Gapless]

theorem zip_names_bindings {bound : List (Binder × Expr)} :
    (bound.map (·.1.name)).zip ((bindings o env bound).value.map (·.2)) =
      (bindings o env bound).value := by
  rw [← names_bindings, List.zip_map']
  simp

theorem length_names_bindings {bound : List (Binder × Expr)} :
    (bound.map (·.1.name)).length = ((bindings o env bound).value.map (·.2)).length := by
  rw [← @names_bindings o env, List.length_map, List.length_map]

theorem mirrors_binary {token : Token} {op : BinaryOp} {left right : Expr}
    (first : Mirrors left.Gapless (Strict.expr o env left) (expr o env left))
    (second : Mirrors right.Gapless (Strict.expr o env right) (expr o env right)) :
    Mirrors (Expr.Gapless (.binary token op left right))
      (Strict.expr o env (.binary token op left right))
      (expr o env (.binary token op left right)) := by
  have whole : left.Gapless ∧ right.Gapless ↔ Expr.Gapless (.binary token op left right) := by
    simp [Expr.Gapless, Expr.gaps]
  refine Mirrors.congr ?_ whole
  have operandFree : ∀ index anchor t, lapse? (operand index op.spelling anchor t).notes = none :=
    fun _ _ _ => lapse?_require (by simp [TypeError.category])
  cases op with
  | cons => exact first.bind fun _ => second.thenRule .pure
  | assign =>
    refine first.bind fun _ => .afterTotal (lapse?_require (by simp [TypeError.category])) ?_
    exact second.thenRule (mirrors_assignRule isError_or_kind_reference)
  | _ =>
    exact first.bind fun _ => .afterTotal (operandFree _ _ _)
      (second.thenRule (.afterTotal (operandFree _ _ _) .pure))

theorem mirrors_expr (e : Expr) :
    Mirrors e.Gapless (Strict.expr o env e) (expr o env e) := by
  induction e using Expr.induction generalizing env with
  | absent =>
    have lapse : lapse? (expr o env .absent).notes = some .absentExpression := rfl
    have broken : ¬ Expr.Gapless .absent := by simp [Expr.Gapless, Expr.gaps]
    exact ⟨fun whole => absurd whole broken, fun _ => rfl, by simp [lapse, broken]⟩
  | number | string | bool | unit | read =>
    exact Mirrors.pure.congr (by simp [Expr.Gapless, Expr.gaps])
  | broken =>
    refine Mirrors.congr (.report (by simp [TypeError.category])) ?_
    simp [Expr.Gapless, Expr.gaps]
  | var token name =>
    have whole : True ↔ Expr.Gapless (.var token name) := by simp [Expr.Gapless, Expr.gaps]
    refine Mirrors.congr ?_ whole
    rw [Strict.expr, expr_var]
    cases env.lookup? name with
    | none => exact .report (by simp [TypeError.category])
    | some t => exact .pure
  | add token addends each =>
    exact (mirrors_operands fun e member => each e member).thenRule .pure
  | binary token op left right ihLeft ihRight => exact mirrors_binary ihLeft ihRight
  | unary token op operand ih =>
    rw [expr_unary]
    exact ih.thenRule mirrors_unaryRule
  | branch token cond yes no ihCond ihYes ihNo =>
    refine Mirrors.congr (ihCond.bind fun _ => ihYes.bind fun _ =>
      ihNo.thenRule mirrors_branchRule) ?_
    simp [Expr.Gapless, Expr.gaps]
  | letIn token bound body each ihBody =>
    have whole : .expression ∉ Expr.gapsBindings bound ∧ body.Gapless ↔
        Expr.Gapless (.letIn token bound body) := by
      simp [Expr.Gapless, Expr.gaps]
    refine Mirrors.congr ?_ whole
    refine (mirrors_bindings fun binding member => each binding member).bindSeen fun _ => ?_
    rw [extend_eq length_names_bindings, pure_bind, zip_names_bindings]
    exact ihBody.thenRule .pure
  | letrec token bound body each ihBody =>
    have whole : .expression ∉ Expr.gapsBindings bound ∧ body.Gapless ↔
        Expr.Gapless (.letrec token bound body) := by
      simp [Expr.Gapless, Expr.gaps]
    refine Mirrors.congr ?_ whole
    rw [expr_letrec]
    refine .afterTotal lapse?_annotations ?_
    rw [extend_eq (by simp [value_annotations]), pure_bind]
    have places : (annotations (bound.map (·.1))).value.drop 0 =
        bound.map fun binding => (annotated binding.1).value := by
      simp [value_annotations]
    simp only [scope, List.map_map]
    exact (mirrors_recursiveBindings places fun binding member => each binding member).bind
      fun _ => ihBody.thenRule .pure
  | lambda token params body ih =>
    have whole : body.Gapless ↔ Expr.Gapless (.lambda token params body) := by
      simp [Expr.Gapless, Expr.gaps]
    refine Mirrors.congr ?_ whole
    rw [expr_lambda]
    refine .afterTotal lapse?_annotations ?_
    rw [extend_eq (by simp [value_annotations]), pure_bind]
    exact ih.thenRule .pure
  | call token operator args ihOperator each =>
    have whole : operator.Gapless ∧ .expression ∉ Expr.gapsAll args ↔
        Expr.Gapless (.call token operator args) := by
      simp [Expr.Gapless, Expr.gaps]
    refine Mirrors.congr ?_ whole
    refine ihOperator.bind fun _ => (mirrors_exprs fun e member => each e member).seenByRule ?_
    have rule := mirrors_callRule token operator.token (expr o env operator).value
      (length_types_exprs o env args)
    rwa [zip_tokens_exprs] at rule
  | list token elem elems each =>
    rw [expr_list]
    refine .afterTotal lapse?_elementType ?_
    refine (mirrors_exprs fun e member => each e member).seenByRule ?_
    have rule := mirrors_elements (elementType token elem).value List.drop_zero
      (length_types_exprs o env elems)
    rw [zip_tokens_exprs] at rule
    exact rule.thenRule .pure
  | readFrom token source ih =>
    exact ih.thenRule (.afterTotal (lapse?_require (by simp [TypeError.category])) .pure)

/-! Definitions and programs. -/

theorem mirrors_decl {d : Decl} :
    Mirrors d.value.Gapless (Strict.decl o env d) (decl o env d) := by
  unfold Strict.decl decl
  cases d.binder.type with
  | none => exact (mirrors_expr d.value).thenRule .pure
  | some type =>
    exact .afterTotal lapse?_annotated
      ((mirrors_expr d.value).thenRule (mirrors_reconcile.thenRule .pure))

theorem mirrors_decls {ds : List Decl} :
    Mirrors (∀ d ∈ ds, d.value.Gapless) (Strict.decls o env ds) (decls o env ds) := by
  induction ds generalizing env with
  | nil => exact Mirrors.pure.congr (by simp)
  | cons d ds ih =>
    refine Mirrors.congr ?_ List.forall_mem_cons.symm
    exact mirrors_decl.bind fun _ => ih

theorem mirrors_program (p : Program) :
    Mirrors ((∀ d ∈ p.decls, d.value.Gapless) ∧ p.result.Gapless) (Strict.program o env p)
      (program o env p) :=
  mirrors_decls.bind fun _ => (mirrors_expr p.result).thenRule .pure

end Check

end TypedForms
