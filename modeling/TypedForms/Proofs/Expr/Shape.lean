import TypedForms.Expr.Parse
import TypedForms.Proofs.Grammar
import TypedForms.Proofs.Ty.Grammar

/-! The shapes of data that are read as expressions without a note. A shape says what the parts of
a form are read as, and it is one shape at most. -/
namespace TypedForms.Expr

variable {token opening : Token} {d : Datum} {ds elems : List Datum} {e : Expr}

theorem malformed_ne_pure {cause : ParseError} : ¬ malformed token cause = pure e :=
  Diagnosed.note_bind_ne_pure

theorem malformedForm_ne_pure {cause : ParseError} :
    ¬ malformedForm opening token cause = pure e :=
  Diagnosed.note_bind_ne_pure

theorem giveUp_ne_pure {α : Type} {cause : ParseError} {result : Except ParseError α} :
    ¬ giveUp token cause = pure result :=
  Diagnosed.note_bind_ne_pure

/-! Heads. -/

namespace Head

/-- The kind of the token that makes a form one of that head. -/
def kind? : Head → Option Token.Kind
  | .add => some (.mark .add)
  | .binary op => some op.kind
  | .unary op => some op.kind
  | .branch => some (.keyword .ifForm)
  | .letIn => some (.keyword .letForm)
  | .letrec => some (.keyword .letrec)
  | .lambda => some (.keyword .lambda)
  | .list => some (.keyword .list)
  | .read => some (.keyword .read)
  | .define => some (.keyword .define)
  | .misplaced | .operator => none

theorem ofKind_of_kind? {h : Head} {kind : Token.Kind} (kinded : h.kind? = some kind) :
    ofKind kind = h := by
  cases h with
  | binary op | unary op =>
    obtain rfl := Option.some.inj kinded
    cases op <;> rfl
  | misplaced | operator => cases kinded
  | _ =>
    obtain rfl := Option.some.inj kinded
    rfl

theorem kind?_ofKind {h : Head} {kind expected : Token.Kind} (same : ofKind kind = h)
    (kinded : h.kind? = some expected) : kind = expected := by
  subst same
  cases kind with
  | mark m => cases m <;> first | exact Option.some.inj kinded | cases kinded
  | keyword k => cases k <;> first | exact Option.some.inj kinded | cases kinded
  | _ => cases kinded

/-- A head of its own kind is a token of that kind. -/
theorem exists_token {h : Head} {kind : Token.Kind} (same : ofDatum d = h)
    (kinded : h.kind? = some kind) : ∃ token, d = .atom token ∧ token.kind = kind := by
  cases d with
  | atom token => exact ⟨token, rfl, kind?_ofKind same kinded⟩
  | list opening elems =>
    subst same
    cases kinded

theorem ofDatum_atom {h : Head} {kind : Token.Kind} (same : token.kind = kind)
    (kinded : h.kind? = some kind) : ofDatum (.atom token) = h := by
  rw [ofDatum, same, ofKind_of_kind? kinded]

end Head

/-- Only constants and names are expressions by themselves. -/
theorem kind_of_ofToken (clean : ofToken token = pure e) :
    token.kind.isLiteral = true ∨ token.kind = .keyword .unit := by
  unfold ofToken at clean
  split at clean
  next kind => exact .inl (by rw [kind]; rfl)
  next kind => exact .inl (by rw [kind]; rfl)
  next kind => exact .inl (by rw [kind]; rfl)
  next kind => exact .inr kind
  next kind => exact .inl (by rw [kind]; rfl)
  next => exact absurd clean malformed_ne_pure
  next => exact absurd clean malformed_ne_pure

theorem head_of_clean (clean : ofDatum d = pure e) : Head.ofDatum d = .operator := by
  cases d with
  | list => rfl
  | atom token =>
    rw [Head.ofDatum]
    rcases kind_of_ofToken clean with literal | unit
    · cases kind : token.kind <;> rw [kind] at literal <;> first | rfl | cases literal
    · rw [unit]
      rfl

theorem not_colon_of_clean (clean : ofDatum d = pure e) : d.isAtom (.mark .colon) = false := by
  refine Bool.eq_false_iff.mpr fun isColon => ?_
  obtain ⟨token, rfl, kind⟩ := Datum.isAtom_iff.mp isColon
  have head := head_of_clean clean
  rw [Head.ofDatum, kind] at head
  cases head

/-! Parts of forms. -/

/-- In parentheses, a list of data of the shape. -/
def Enclosed {α : Type} (shape : List Datum → α → Prop) (d : Datum) (a : α) : Prop :=
  ∃ opening elems, d = .list opening elems ∧ shape elems a

/-- A parameter is a name and a type, with a colon between them. -/
inductive ParamShape : List Datum → Binder → Prop where
  | typed {name colon type t} (nameKind : Token.kind name = .ident)
    (colonKind : Token.kind colon = .mark .colon) (typed : Ty.ofDatum type = pure t) :
    ParamShape [.atom name, .atom colon, type] ⟨name, name.literal, some t⟩

/-- A binding is a name, a type after a colon unless it can do without, and a value. -/
inductive BindingShape (form : BindingForm) : List Datum → Binder × Expr → Prop where
  | plain {name d value} (optional : form ≠ .letrec) (nameKind : Token.kind name = .ident)
    (part : ofDatum d = pure value) :
    BindingShape form [.atom name, d] (⟨name, name.literal, none⟩, value)
  | typed {name colon type d t value} (nameKind : Token.kind name = .ident)
    (colonKind : Token.kind colon = .mark .colon) (typed : Ty.ofDatum type = pure t)
    (part : ofDatum d = pure value) :
    BindingShape form [.atom name, .atom colon, type, d] (⟨name, name.literal, some t⟩, value)

theorem ofData_eq_pure_iff {es : List Expr} :
    ofData ds = pure es ↔ List.Forall₂ (ofDatum · = pure ·) ds es := by
  induction ds generalizing es with
  | nil => simp [ofData, Diagnosed.pure_inj, eq_comm]
  | cons d ds ih =>
    simp only [ofData, Diagnosed.bind_eq_pure_iff, Diagnosed.pure_inj, ih,
      List.forall₂_cons_left_iff]
    constructor
    · rintro ⟨first, firstClean, rest, restClean, rfl⟩
      exact ⟨first, rest, firstClean, restClean, rfl⟩
    · rintro ⟨first, rest, firstClean, restClean, rfl⟩
      exact ⟨first, firstClean, rest, restClean, rfl⟩

theorem param_eq_pure_iff {lambda : Token} {result : Except (Token × ParseError) Binder} :
    param lambda d = pure result ↔
      ∃ binder, Enclosed ParamShape d binder ∧ result = .ok binder := by
  constructor
  · intro clean
    cases d with
    | atom token => exact absurd clean Diagnosed.note_bind_ne_pure
    | list opening elems =>
      simp only [param] at clean
      split at clean
      next => exact absurd clean Diagnosed.note_bind_ne_pure
      split at clean
      next isName =>
        obtain ⟨name, rfl, nameKind⟩ := Datum.isAtom_iff.mp isName
        split at clean
        next => exact absurd clean Diagnosed.note_bind_ne_pure
        split at clean
        next isColon =>
          obtain ⟨colon, rfl, colonKind⟩ := Datum.isAtom_iff.mp isColon
          split at clean
          next => exact absurd clean Diagnosed.note_bind_ne_pure
          obtain ⟨t, typed, clean⟩ := Diagnosed.bind_eq_pure_iff.mp clean
          split at clean
          next =>
            obtain rfl := Diagnosed.pure_inj.mp clean
            exact ⟨_, ⟨opening, _, rfl, .typed nameKind colonKind typed⟩, rfl⟩
          next => exact absurd clean Diagnosed.note_bind_ne_pure
        next => exact absurd clean Diagnosed.note_bind_ne_pure
      next => exact absurd clean Diagnosed.note_bind_ne_pure
  · rintro ⟨binder, ⟨opening, elems, rfl, shape⟩, rfl⟩
    cases shape with | typed nameKind colonKind typed =>
    simp [param, nameKind, colonKind, typed]

theorem params_eq_pure_iff {lambda : Token} {result : Except (Token × ParseError) (List Binder)} :
    params lambda ds = pure result ↔
      ∃ binders, List.Forall₂ (Enclosed ParamShape) ds binders ∧ result = .ok binders := by
  induction ds generalizing result with
  | nil => simp [params, Diagnosed.pure_inj, eq_comm]
  | cons d ds ih =>
    constructor
    · intro clean
      obtain ⟨_, firstClean, clean⟩ := Diagnosed.bind_eq_pure_iff.mp clean
      obtain ⟨binder, first, rfl⟩ := param_eq_pure_iff.mp firstClean
      obtain ⟨_, othersClean, clean⟩ := Diagnosed.bind_eq_pure_iff.mp clean
      obtain ⟨binders, others, rfl⟩ := ih.mp othersClean
      obtain rfl := Diagnosed.pure_inj.mp clean
      exact ⟨binder :: binders, .cons first others, rfl⟩
    · rintro ⟨_, each, rfl⟩
      cases each with | cons first others =>
      simp [params, param_eq_pure_iff.mpr ⟨_, first, rfl⟩, ih.mpr ⟨_, others, rfl⟩]

theorem binding_eq_pure_iff {form : BindingForm} {head : String} {start : Token}
    {result : Except ParseError (Binder × Expr)} :
    binding form head start opening elems = pure result ↔
      ∃ bound, BindingShape form elems bound ∧ result = .ok bound := by
  constructor
  · intro clean
    cases elems with
    | nil => exact absurd clean giveUp_ne_pure
    | cons name rest =>
      rw [binding] at clean
      split at clean
      next isName =>
        obtain ⟨name, rfl, nameKind⟩ := Datum.isAtom_iff.mp isName
        split at clean
        next => exact absurd clean giveUp_ne_pure
        split at clean
        next isColon =>
          obtain ⟨colon, rfl, colonKind⟩ := Datum.isAtom_iff.mp isColon
          split at clean
          next => exact absurd clean giveUp_ne_pure
          obtain ⟨t, typed, clean⟩ := Diagnosed.bind_eq_pure_iff.mp clean
          split at clean
          next =>
            simp only [Diagnosed.bind_eq_pure_iff, Diagnosed.pure_inj] at clean
            obtain ⟨value, valueClean, rfl⟩ := clean
            exact ⟨_, .typed nameKind colonKind typed valueClean, rfl⟩
          next => exact absurd clean giveUp_ne_pure
        next =>
          split at clean
          next =>
            split at clean
            next => exact absurd clean giveUp_ne_pure
            next optional =>
              simp only [Diagnosed.bind_eq_pure_iff, Diagnosed.pure_inj] at clean
              obtain ⟨value, valueClean, rfl⟩ := clean
              exact ⟨_, .plain optional nameKind valueClean, rfl⟩
          next => exact absurd clean giveUp_ne_pure
      next => exact absurd clean giveUp_ne_pure
  · rintro ⟨bound, shape, rfl⟩
    cases shape with
    | plain optional nameKind part =>
      simp [binding, nameKind, not_colon_of_clean part, optional, part]
    | typed nameKind colonKind typed part =>
      simp [binding, nameKind, colonKind, typed, part]

theorem bindings_eq_pure_iff {form : BindingForm} {head : String}
    {result : Except ParseError (List (Binder × Expr))} :
    bindings form head ds = pure result ↔
      ∃ bound, List.Forall₂ (Enclosed (BindingShape form)) ds bound ∧ result = .ok bound := by
  induction ds generalizing result with
  | nil => simp [bindings, Diagnosed.pure_inj, eq_comm]
  | cons d ds ih =>
    constructor
    · intro clean
      cases d with
      | atom token => exact absurd clean giveUp_ne_pure
      | list opening elems =>
        obtain ⟨_, firstClean, clean⟩ := Diagnosed.bind_eq_pure_iff.mp clean
        obtain ⟨binding, first, rfl⟩ := binding_eq_pure_iff.mp firstClean
        obtain ⟨_, othersClean, clean⟩ := Diagnosed.bind_eq_pure_iff.mp clean
        obtain ⟨bound, others, rfl⟩ := ih.mp othersClean
        obtain rfl := Diagnosed.pure_inj.mp clean
        exact ⟨binding :: bound, .cons ⟨opening, elems, rfl, first⟩ others, rfl⟩
    · rintro ⟨_, each, rfl⟩
      cases each with | cons first others =>
      obtain ⟨opening, elems, rfl, shape⟩ := first
      simp [bindings, binding_eq_pure_iff.mpr ⟨_, shape, rfl⟩, ih.mpr ⟨_, others, rfl⟩]

/-! Forms. -/

/-- A form in parentheses, by what its parts are read as. -/
inductive Shape (opening : Token) : List Datum → Expr → Prop where
  | add {head args operands} (kind : Token.kind head = .mark .add)
    (parts : List.Forall₂ (ofDatum · = pure ·) args operands) :
    Shape opening (.atom head :: args) (.add opening operands)
  | binary {head op first second left right} (kind : Token.kind head = BinaryOp.kind op)
    (leftPart : ofDatum first = pure left) (rightPart : ofDatum second = pure right) :
    Shape opening [.atom head, first, second] (.binary opening op left right)
  | unary {head op d operand} (kind : Token.kind head = UnaryOp.kind op)
    (part : ofDatum d = pure operand) :
    Shape opening [.atom head, d] (.unary opening op operand)
  | branch {head first second third cond yes no} (kind : Token.kind head = .keyword .ifForm)
    (condPart : ofDatum first = pure cond) (yesPart : ofDatum second = pure yes)
    (noPart : ofDatum third = pure no) :
    Shape opening [.atom head, first, second, third] (.branch opening cond yes no)
  | letIn {head left group d bound body} (kind : Token.kind head = .keyword .letForm)
    (values : List.Forall₂ (Enclosed (BindingShape .letIn)) group bound)
    (bodyPart : ofDatum d = pure body) :
    Shape opening [.atom head, .list left group, d] (.letIn opening bound body)
  | letrec {head left group d bound body} (kind : Token.kind head = .keyword .letrec)
    (values : List.Forall₂ (Enclosed (BindingShape .letrec)) group bound)
    (bodyPart : ofDatum d = pure body) :
    Shape opening [.atom head, .list left group, d] (.letrec opening bound body)
  | lambda {head left group d binders body} (kind : Token.kind head = .keyword .lambda)
    (params : List.Forall₂ (Enclosed ParamShape) group binders)
    (bodyPart : ofDatum d = pure body) :
    Shape opening [.atom head, .list left group, d] (.lambda opening binders body)
  | call {head args operator operands} (operatorPart : ofDatum head = pure operator)
    (parts : List.Forall₂ (ofDatum · = pure ·) args operands) :
    Shape opening (head :: args) (.call opening operator operands)
  | list {head args elems} (kind : Token.kind head = .keyword .list)
    (parts : List.Forall₂ (ofDatum · = pure ·) args elems) :
    Shape opening (.atom head :: args) (.list opening none elems)
  | typedList {head colon type args t elems} (kind : Token.kind head = .keyword .list)
    (colonKind : Token.kind colon = .mark .colon) (typed : Ty.ofDatum type = pure t)
    (parts : List.Forall₂ (ofDatum · = pure ·) args elems) :
    Shape opening (.atom head :: .atom colon :: type :: args) (.list opening (some t) elems)
  | read {head} (kind : Token.kind head = .keyword .read) :
    Shape opening [.atom head] (.read opening)
  | readFrom {head d source} (kind : Token.kind head = .keyword .read)
    (part : ofDatum d = pure source) :
    Shape opening [.atom head, d] (.readFrom opening source)

section

variable {head : Datum} {args : List Datum}

theorem shape_of_binary {op : BinaryOp} (isBinary : Head.ofDatum head = .binary op)
    (clean : ofDatum (.list opening (head :: args)) = pure e) : Shape opening (head :: args) e := by
  obtain ⟨head, rfl, kind⟩ := Head.exists_token isBinary rfl
  unfold ofDatum at clean
  simp only [isBinary] at clean
  split at clean
  next =>
    simp only [Diagnosed.bind_eq_pure_iff, Diagnosed.pure_inj] at clean
    obtain ⟨left, leftClean, right, rightClean, rfl⟩ := clean
    exact .binary kind leftClean rightClean
  next => exact absurd clean malformedForm_ne_pure

theorem shape_of_unary {op : UnaryOp} (isUnary : Head.ofDatum head = .unary op)
    (clean : ofDatum (.list opening (head :: args)) = pure e) : Shape opening (head :: args) e := by
  obtain ⟨head, rfl, kind⟩ := Head.exists_token isUnary rfl
  unfold ofDatum at clean
  simp only [isUnary] at clean
  split at clean
  next =>
    simp only [Diagnosed.bind_eq_pure_iff, Diagnosed.pure_inj] at clean
    obtain ⟨operand, operandClean, rfl⟩ := clean
    exact .unary kind operandClean
  next => exact absurd clean malformedForm_ne_pure

theorem shape_of_branch (isBranch : Head.ofDatum head = .branch)
    (clean : ofDatum (.list opening (head :: args)) = pure e) : Shape opening (head :: args) e := by
  obtain ⟨head, rfl, kind⟩ := Head.exists_token isBranch rfl
  unfold ofDatum at clean
  simp only [isBranch] at clean
  split at clean
  next =>
    simp only [Diagnosed.bind_eq_pure_iff, Diagnosed.pure_inj] at clean
    obtain ⟨cond, condClean, yes, yesClean, no, noClean, rfl⟩ := clean
    exact .branch kind condClean yesClean noClean
  next => exact absurd clean malformedForm_ne_pure

theorem shape_of_letIn (isLet : Head.ofDatum head = .letIn)
    (clean : ofDatum (.list opening (head :: args)) = pure e) : Shape opening (head :: args) e := by
  obtain ⟨head, rfl, kind⟩ := Head.exists_token isLet rfl
  unfold ofDatum at clean
  simp only [isLet] at clean
  split at clean
  next => exact absurd clean malformedForm_ne_pure
  next =>
    obtain ⟨_, bindingsClean, clean⟩ := Diagnosed.bind_eq_pure_iff.mp clean
    obtain ⟨bound, values, rfl⟩ := bindings_eq_pure_iff.mp bindingsClean
    simp only [Diagnosed.bind_eq_pure_iff, Diagnosed.pure_inj] at clean
    obtain ⟨body, bodyClean, rfl⟩ := clean
    exact .letIn kind values bodyClean
  next => exact absurd clean malformedForm_ne_pure

theorem shape_of_letrec (isLetrec : Head.ofDatum head = .letrec)
    (clean : ofDatum (.list opening (head :: args)) = pure e) : Shape opening (head :: args) e := by
  obtain ⟨head, rfl, kind⟩ := Head.exists_token isLetrec rfl
  unfold ofDatum at clean
  simp only [isLetrec] at clean
  split at clean
  next => exact absurd clean malformedForm_ne_pure
  next =>
    obtain ⟨_, bindingsClean, clean⟩ := Diagnosed.bind_eq_pure_iff.mp clean
    obtain ⟨bound, values, rfl⟩ := bindings_eq_pure_iff.mp bindingsClean
    simp only [Diagnosed.bind_eq_pure_iff, Diagnosed.pure_inj] at clean
    obtain ⟨body, bodyClean, rfl⟩ := clean
    exact .letrec kind values bodyClean
  next => exact absurd clean malformedForm_ne_pure

theorem shape_of_lambda (isLambda : Head.ofDatum head = .lambda)
    (clean : ofDatum (.list opening (head :: args)) = pure e) : Shape opening (head :: args) e := by
  obtain ⟨head, rfl, kind⟩ := Head.exists_token isLambda rfl
  unfold ofDatum at clean
  simp only [isLambda] at clean
  split at clean
  next => exact absurd clean malformed_ne_pure
  next =>
    obtain ⟨_, paramsClean, clean⟩ := Diagnosed.bind_eq_pure_iff.mp clean
    obtain ⟨binders, params, rfl⟩ := params_eq_pure_iff.mp paramsClean
    simp only [Diagnosed.bind_eq_pure_iff, Diagnosed.pure_inj] at clean
    obtain ⟨body, bodyClean, rfl⟩ := clean
    exact .lambda kind params bodyClean
  next => exact absurd clean malformedForm_ne_pure

theorem shape_of_list (isList : Head.ofDatum head = .list)
    (clean : ofDatum (.list opening (head :: args)) = pure e) : Shape opening (head :: args) e := by
  obtain ⟨head, rfl, kind⟩ := Head.exists_token isList rfl
  unfold ofDatum at clean
  simp only [isList] at clean
  split at clean
  next =>
    obtain rfl := Diagnosed.pure_inj.mp clean
    exact .list kind .nil
  split at clean
  next isColon =>
    obtain ⟨colon, rfl, colonKind⟩ := Datum.isAtom_iff.mp isColon
    split at clean
    next => exact absurd clean malformed_ne_pure
    simp only [Diagnosed.bind_eq_pure_iff, Diagnosed.pure_inj, ofData_eq_pure_iff] at clean
    obtain ⟨t, typed, elems, elemsClean, rfl⟩ := clean
    exact .typedList kind colonKind typed elemsClean
  next =>
    simp only [Diagnosed.bind_eq_pure_iff, Diagnosed.pure_inj, ofData_eq_pure_iff] at clean
    obtain ⟨first, firstClean, rest, restClean, rfl⟩ := clean
    exact .list kind (.cons firstClean restClean)

theorem shape_of_read (isRead : Head.ofDatum head = .read)
    (clean : ofDatum (.list opening (head :: args)) = pure e) : Shape opening (head :: args) e := by
  obtain ⟨head, rfl, kind⟩ := Head.exists_token isRead rfl
  unfold ofDatum at clean
  simp only [isRead] at clean
  split at clean
  next =>
    obtain rfl := Diagnosed.pure_inj.mp clean
    exact .read kind
  next =>
    simp only [Diagnosed.bind_eq_pure_iff, Diagnosed.pure_inj] at clean
    obtain ⟨source, sourceClean, rfl⟩ := clean
    exact .readFrom kind sourceClean
  next => exact absurd clean malformed_ne_pure

end

theorem shape_of_clean (clean : ofDatum (.list opening elems) = pure e) :
    Shape opening elems e := by
  cases elems with
  | nil => exact absurd clean malformed_ne_pure
  | cons head args =>
    cases isHead : Head.ofDatum head with
    | binary op => exact shape_of_binary isHead clean
    | unary op => exact shape_of_unary isHead clean
    | branch => exact shape_of_branch isHead clean
    | letIn => exact shape_of_letIn isHead clean
    | letrec => exact shape_of_letrec isHead clean
    | lambda => exact shape_of_lambda isHead clean
    | list => exact shape_of_list isHead clean
    | read => exact shape_of_read isHead clean
    | add =>
      obtain ⟨head, rfl, kind⟩ := Head.exists_token isHead rfl
      unfold ofDatum at clean
      simp only [isHead, Diagnosed.bind_eq_pure_iff, Diagnosed.pure_inj,
        ofData_eq_pure_iff] at clean
      obtain ⟨operands, parts, rfl⟩ := clean
      exact .add kind parts
    | operator =>
      unfold ofDatum at clean
      simp only [isHead, Diagnosed.bind_eq_pure_iff, Diagnosed.pure_inj,
        ofData_eq_pure_iff] at clean
      obtain ⟨operator, operatorClean, operands, parts, rfl⟩ := clean
      exact .call operatorClean parts
    | define | misplaced =>
      unfold ofDatum at clean
      simp only [isHead] at clean
      exact absurd clean malformed_ne_pure

theorem clean_of_shape (shape : Shape opening elems e) :
    ofDatum (.list opening elems) = pure e := by
  cases shape with
  | add kind parts =>
    unfold ofDatum
    simp [@Head.ofDatum_atom _ .add _ kind rfl, ofData_eq_pure_iff.mpr parts]
  | @binary _ op _ _ _ _ kind leftPart rightPart =>
    unfold ofDatum
    simp [@Head.ofDatum_atom _ (.binary op) _ kind rfl, leftPart, rightPart]
  | @unary _ op _ _ kind part =>
    unfold ofDatum
    simp [@Head.ofDatum_atom _ (.unary op) _ kind rfl, part]
  | branch kind condPart yesPart noPart =>
    unfold ofDatum
    simp [@Head.ofDatum_atom _ .branch _ kind rfl, condPart, yesPart, noPart]
  | letIn kind values bodyPart =>
    unfold ofDatum
    simp [@Head.ofDatum_atom _ .letIn _ kind rfl, bindings_eq_pure_iff.mpr ⟨_, values, rfl⟩,
      bodyPart]
  | letrec kind values bodyPart =>
    unfold ofDatum
    simp [@Head.ofDatum_atom _ .letrec _ kind rfl, bindings_eq_pure_iff.mpr ⟨_, values, rfl⟩,
      bodyPart]
  | lambda kind params bodyPart =>
    unfold ofDatum
    simp [@Head.ofDatum_atom _ .lambda _ kind rfl, params_eq_pure_iff.mpr ⟨_, params, rfl⟩,
      bodyPart]
  | call operatorPart parts =>
    unfold ofDatum
    simp [head_of_clean operatorPart, operatorPart, ofData_eq_pure_iff.mpr parts]
  | list kind parts =>
    unfold ofDatum
    cases parts with
    | nil => simp [@Head.ofDatum_atom _ .list _ kind rfl]
    | cons first rest =>
      simp [@Head.ofDatum_atom _ .list _ kind rfl, not_colon_of_clean first, first,
        ofData_eq_pure_iff.mpr rest]
  | typedList kind colonKind typed parts =>
    unfold ofDatum
    simp [@Head.ofDatum_atom _ .list _ kind rfl, colonKind, typed, ofData_eq_pure_iff.mpr parts]
  | read kind =>
    unfold ofDatum
    simp [@Head.ofDatum_atom _ .read _ kind rfl]
  | readFrom kind part =>
    unfold ofDatum
    simp [@Head.ofDatum_atom _ .read _ kind rfl, part]

end TypedForms.Expr
