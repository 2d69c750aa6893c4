import TypedForms.Proofs.Check.Coupling

/-! Programs as nested binding forms. A definition without a written type is checked like a `let`
around all that comes after it, and one with a written type like a `letrec`: the same problems
are found at the same places in the same order, in the same words but for the name of the form. -/
namespace TypedForms

/-- A definition as a binding form around what comes after it. -/
def Decl.around (d : Decl) (body : Expr) : Expr :=
  match d.binder.type with
  | none => .letIn d.token [(d.binder, d.value)] body
  | some _ => .letrec d.token [(d.binder, d.value)] body

/-- The result of a program inside of its definitions, the first of which is outermost. -/
def Program.nest (p : Program) : Expr := p.decls.foldr Decl.around p.result

/-- Two diagnostics are the same, or they find the same fault with a declared type, the first in
a `define` and the second in a `letrec`. -/
def Diagnostic.Matches (d d' : Diagnostic TypeError) : Prop :=
  d' = d ∨ d'.anchor = d.anchor ∧ d.cause.category = .mismatch ∧ d'.cause.category = .mismatch ∧
    ∃ name fault, d.message = "define " ++ name ++ ": declared " ++ fault ∧
      d'.message = "letrec binding " ++ name ++ ": declared " ++ fault

namespace Check

variable {o : Options} {env : Env Ty}

variable {form : BindingForm} {name : String} {expected got : Ty}

theorem message_declared : (TypeError.declared form name expected got).message =
    form.phrase ++ " " ++ name ++ ": declared " ++ expected.render ++ ", got " ++ got.render := rfl

theorem message_declaredResult : (TypeError.declaredResult form name expected got).message =
    form.phrase ++ " " ++ name ++ ": declared return type " ++ expected.render ++
      ", body has type " ++ got.render := rfl

theorem message_mk {anchor : Token} {cause : TypeError} :
    (Diagnostic.mk anchor cause).message = cause.message := rfl

theorem forall₂_matches_refl (notes : List (Diagnostic TypeError)) :
    List.Forall₂ Diagnostic.Matches notes notes :=
  List.forall₂_same.mpr fun _ _ => .inl rfl

/-- A declared type is held against a value in the same way by both forms. -/
theorem matches_reconcile (name : String) (value : Token) (declared got : Ty) :
    List.Forall₂ Diagnostic.Matches (reconcile .define name value declared got).notes
        (reconcile .letrec name value declared got).notes ∧
      (reconcile .letrec name value declared got).value.isError =
        (reconcile .define name value declared got).value.isError := by
  have fault : ∀ (cause : BindingForm → TypeError) (text : String),
      (∀ form, (cause form).category = .mismatch) →
      (∀ form, (cause form).message = form.phrase ++ " " ++ name ++ ": declared " ++ text) →
      List.Forall₂ Diagnostic.Matches (report value (cause .define)).notes
          (report value (cause .letrec)).notes ∧
        (report value (cause .letrec)).value.isError =
          (report value (cause .define)).value.isError := by
    intro cause text mismatch message
    have define : BindingForm.define.phrase ++ " " = "define " := rfl
    have letrec : BindingForm.letrec.phrase ++ " " = "letrec binding " := rfl
    refine ⟨.cons (.inr ⟨rfl, mismatch _, mismatch _, name, text, ?_, ?_⟩) .nil, rfl⟩
    · rw [message_mk, message, define]
    · rw [message_mk, message, letrec]
  have whole := fault (.declared · name declared got)
    (declared.render ++ ", got " ++ got.render) (fun _ => rfl)
    fun form => by simp only [message_declared, String.append_assoc]
  have resultOnly := fun expected found : Ty => fault (.declaredResult · name expected found)
    ("return type " ++ expected.render ++ ", body has type " ++ found.render) (fun _ => rfl)
    fun form => by
      have words : ": declared return type " = ": declared " ++ "return type " := rfl
      simp only [message_declaredResult, words, String.append_assoc]
  unfold reconcile
  split
  · exact ⟨.nil, rfl⟩
  split
  · exact ⟨.nil, rfl⟩
  split
  · exact ⟨.nil, rfl⟩
  split
  · split
    · exact resultOnly _ _
    · exact whole
  · exact whole

/-! One definition, and what comes after it. -/

variable {d : Decl} {body : Expr}

theorem decl_bare (bare : d.binder.type = none) :
    decl o env d = (do
      let t ← expr o env d.value
      pure (t, env.extend d.binder.name t)) := by
  simp only [decl, bare]

theorem decl_written {type : Ty} (written : d.binder.type = some type) :
    decl o env d = (do
      let declared ← annotated d.binder
      let got ← expr o (env.extend d.binder.name declared) d.value
      let t ← reconcile .define d.binder.name d.value.token declared got
      pure (t, env.extend d.binder.name declared)) := by
  simp only [decl, written]

theorem around_bare (bare : d.binder.type = none) :
    expr o env (d.around body) = (do
      let t ← expr o env d.value
      let bodyType ← expr o (env.extend d.binder.name t) body
      pure (orError [t] bodyType)) := by
  simp [Decl.around, expr_letIn, bindings, bare]

theorem around_written {type : Ty} (written : d.binder.type = some type) :
    expr o env (d.around body) = (do
      let declared ← annotated d.binder
      let got ← expr o (env.extend d.binder.name declared) d.value
      let t ← reconcile .letrec d.binder.name d.value.token declared got
      let bodyType ← expr o (env.extend d.binder.name declared) body
      pure (orError [declared, t] bodyType)) := by
  apply Diagnosed.ext <;>
    simp [Decl.around, written, expr_letrec, annotations, Diagnosed.sequence, scope,
      recursiveBindings]

/-- The notes of a definition come first, and what comes after it is checked in the environment
that the definition leaves behind. -/
theorem exists_notes_around (o : Options) (env : Env Ty) (d : Decl) (body : Expr) : ∃ notes,
    List.Forall₂ Diagnostic.Matches (decl o env d).notes notes ∧
      (expr o env (d.around body)).notes =
        notes ++ (expr o (decl o env d).value.2 body).notes := by
  cases written : d.binder.type with
  | none =>
    refine ⟨(expr o env d.value).notes, ?_, ?_⟩
    · simpa [decl_bare written] using forall₂_matches_refl (expr o env d.value).notes
    · simp [around_bare written, decl_bare written]
  | some type =>
    rw [around_written written, decl_written written]
    simp only [Diagnosed.notes_bind, Diagnosed.notes_pure, Diagnosed.value_bind,
      Diagnosed.value_pure, List.append_nil, ← List.append_assoc]
    obtain ⟨found, _⟩ := matches_reconcile d.binder.name d.value.token (annotated d.binder).value
      (expr o (env.extend d.binder.name (annotated d.binder).value) d.value).value
    exact ⟨_, List.rel_append (forall₂_matches_refl _) found, rfl⟩

theorem isError_reconcile {form : BindingForm} {value : Token} {declared got : Ty}
    (error : declared.isError = true) :
    (reconcile form name value declared got).value.isError = true := by
  simp [reconcile, error]

/-- An error in a definition shows, and nothing else of it does. -/
theorem value_around (o : Options) (env : Env Ty) (d : Decl) (body : Expr) :
    ((decl o env d).value.1.isError = true → (expr o env (d.around body)).value.isError = true) ∧
    ((decl o env d).value.1.isError = false →
      (expr o env (d.around body)).value = (expr o (decl o env d).value.2 body).value) := by
  cases written : d.binder.type with
  | none =>
    rw [around_bare written, decl_bare written]
    simp only [Diagnosed.value_bind, Diagnosed.value_pure]
    refine ⟨fun error => isError_orError.mpr (.inl ⟨_, by simp, error⟩), fun sound => ?_⟩
    exact orError_eq_self (by simpa using sound)
  | some type =>
    rw [around_written written, decl_written written]
    simp only [Diagnosed.value_bind, Diagnosed.value_pure]
    obtain ⟨_, same⟩ := matches_reconcile d.binder.name d.value.token (annotated d.binder).value
      (expr o (env.extend d.binder.name (annotated d.binder).value) d.value).value
    rw [← same]
    refine ⟨fun error => isError_orError.mpr (.inl ⟨_, by simp, error⟩), fun sound => ?_⟩
    have declaredSound : (annotated d.binder).value.isError = false := by
      by_contra error
      rw [isError_reconcile (by simpa using error)] at sound
      contradiction
    exact orError_eq_self (by simp [declaredSound, sound])

/-! All definitions of a program, the first of which is around the others. -/

variable {ds : List Decl} {result : Expr}

theorem decls_cons : decls o env (d :: ds) = decl o env d >>= fun found => decls o found.2 ds := rfl

theorem matches_foldr_around :
    List.Forall₂ Diagnostic.Matches
      ((decls o env ds).notes ++ (expr o (decls o env ds).value result).notes)
      (expr o env (ds.foldr Decl.around result)).notes := by
  induction ds generalizing env with
  | nil => exact forall₂_matches_refl _
  | cons d ds ih =>
    obtain ⟨notes, found, first⟩ := exists_notes_around o env d (ds.foldr Decl.around result)
    rw [decls_cons, List.foldr_cons, first]
    simp only [Diagnosed.notes_bind, Diagnosed.value_bind, List.append_assoc]
    exact List.rel_append found ih

theorem value_foldr_around :
    (expr o env (ds.foldr Decl.around result)).value.isError = true ∨
      (expr o env (ds.foldr Decl.around result)).value =
        (expr o (decls o env ds).value result).value := by
  induction ds generalizing env with
  | nil => exact .inr rfl
  | cons d ds ih =>
    obtain ⟨shows, hides⟩ := value_around o env d (ds.foldr Decl.around result)
    rw [List.foldr_cons]
    cases error : (decl o env d).value.1.isError with
    | true => exact .inl (shows error)
    | false =>
      rw [hides error]
      exact ih

/-! Where what is read and evaluated has no error in it, none comes from nowhere. -/

theorem coupling_errorFree : Coupling fun t' t => t' = t ∧ t.ErrorFree where
  le rel := rel.1.le
  kind rel := by rw [rel.1]
  error rel := rel.1
  num := ⟨rfl, .num⟩
  str := ⟨rfl, .str⟩
  bool := ⟨rfl, .bool⟩
  unit := ⟨rfl, .unit⟩
  pair left right _ _ := ⟨by rw [left.1, right.1], by simp [left.2, right.2]⟩
  left rel := ⟨(Ty.pair.inj rel.1).1, (Ty.ErrorFree.pair_iff.mp rel.2).1⟩
  right rel := ⟨(Ty.pair.inj rel.1).2, (Ty.ErrorFree.pair_iff.mp rel.2).2⟩
  ref rel _ := ⟨by rw [rel.1], by simp [rel.2]⟩
  cell rel := ⟨Ty.ref.inj rel.1, Ty.ErrorFree.ref_iff.mp rel.2⟩
  func params rel _ :=
    ⟨by rw [rel.1], Ty.ErrorFree.func_iff.mpr ⟨fun param mem => (params param mem).2, rel.2⟩⟩
  result rel := ⟨(Ty.func.inj rel.1).2, (Ty.ErrorFree.func_iff.mp rel.2).2⟩
  join left right _ _ _ found found' := by
    obtain ⟨rfl, leftFree⟩ := left
    obtain ⟨rfl, rightFree⟩ := right
    exact ⟨Option.some.inj (found'.symm.trans found), leftFree.join? rightFree found⟩
  empty := ⟨rfl, by simp⟩
  list _ free := ⟨rfl, by simpa using free⟩
  grow lists rel _ _ _ found found' := by
    obtain ⟨same, listsFree⟩ := lists
    obtain rfl := Ty.list.inj same
    obtain ⟨rfl, free⟩ := rel
    obtain rfl := Option.some.inj (found'.symm.trans found)
    exact ⟨rfl, Ty.ErrorFree.list_iff.mpr
      ((Ty.ErrorFree.list_iff.mp listsFree).join? free found)⟩

section

variable (read : o.inputType.ErrorFree) (eval : o.eval = .dynamic → o.evalResult.ErrorFree)
include read eval

theorem errorFree_of_notes_eq_nil {e : Expr} (free : env.All Ty.ErrorFree)
    (clean : (expr o env e).notes = []) : (expr o env e).value.ErrorFree := by
  have envs : env.All fun t => t = t ∧ t.ErrorFree := fun name t found => ⟨rfl, free name t found⟩
  exact (related_self coupling_errorFree ⟨rfl, read⟩ (fun dynamic => ⟨rfl, eval dynamic⟩)
    (fun _ _ free => ⟨rfl, free⟩) envs clean).2

theorem errorFree_decl (free : env.All Ty.ErrorFree) (clean : (decl o env d).notes = []) :
    (decl o env d).value.1.isError = false ∧ (decl o env d).value.2.All Ty.ErrorFree := by
  cases written : d.binder.type with
  | none =>
    rw [decl_bare written, Diagnosed.notes_bind, List.append_eq_nil_iff] at clean
    have valueFree := errorFree_of_notes_eq_nil read eval free clean.1
    rw [decl_bare written]
    exact ⟨valueFree.isError_eq_false, free.extend valueFree⟩
  | some type =>
    have clean := Diagnosed.eq_pure_iff.mpr ⟨clean, rfl⟩
    simp only [decl_written written, Diagnosed.bind_eq_pure_iff, Diagnosed.pure_inj] at clean
    obtain ⟨declared, annotation, got, value, t, reconciled, same⟩ := clean
    have declaredFree := (annotated_eq_pure_iff.mp annotation).2
    have innerFree : (env.extend d.binder.name declared).All Ty.ErrorFree :=
      free.extend declaredFree
    obtain ⟨valueClean, valueEq⟩ := Diagnosed.eq_pure_iff.mp value
    have gotFree := errorFree_of_notes_eq_nil read eval innerFree valueClean
    rw [valueEq] at gotFree
    obtain ⟨_, rfl⟩ := (reconcile_eq_pure_iff declaredFree gotFree).mp reconciled
    rw [decl_written written, ← same]
    exact ⟨declaredFree.isError_eq_false, innerFree⟩

theorem value_foldr_around_of_clean (free : env.All Ty.ErrorFree)
    (clean : (decls o env ds).notes = []) :
    (expr o env (ds.foldr Decl.around result)).value =
      (expr o (decls o env ds).value result).value := by
  induction ds generalizing env with
  | nil => rfl
  | cons d ds ih =>
    rw [decls_cons, Diagnosed.notes_bind, List.append_eq_nil_iff] at clean
    obtain ⟨sound, free'⟩ := errorFree_decl read eval free clean.1
    rw [List.foldr_cons, (value_around o env d _).2 sound]
    exact ih free' clean.2

end

theorem notes_program {p : Program} : (program o env p).notes =
    (decls o env p.decls).notes ++ (expr o (decls o env p.decls).value p.result).notes := by
  simp [program]

/-- A program is checked like the nest of its definitions: the same problems are noted at the
same places in the same order. Where there is none, the types are the same unless an error has
come in with the types of what is read and evaluated, which is then what the nest has. -/
theorem program_matches_nest (o : Options) (p : Program) :
    List.Forall₂ Diagnostic.Matches (program o .empty p).notes (expr o .empty p.nest).notes ∧
    ((program o .empty p).notes = [] →
      ((expr o .empty p.nest).value.isError = true ∨
        (expr o .empty p.nest).value = (program o .empty p).value.1) ∧
      (o.inputType.ErrorFree → (o.eval = .dynamic → o.evalResult.ErrorFree) →
        (expr o .empty p.nest).value = (program o .empty p).value.1)) := by
  refine ⟨?_, fun clean => ⟨value_foldr_around, fun read eval => ?_⟩⟩
  · rw [notes_program]
    exact matches_foldr_around
  · rw [notes_program, List.append_eq_nil_iff] at clean
    exact value_foldr_around_of_clean read eval .empty clean.1

/-- An error that is read without a note is passed on by a `let`, but not by a definition whose
name nothing refers to. -/
theorem nest_ne_of_erroneous_input :
    ¬ ∀ (o : Options) (p : Program), .expression ∉ p.innerGaps → p.result.isAbsent = false →
      List.Forall₂ Diagnostic.Matches (program o .empty p).notes (expr o .empty p.nest).notes ∧
      ((program o .empty p).notes = [] →
        (expr o .empty p.nest).value = (program o .empty p).value.1) := by
  intro claim
  have same : Ty.error "lost" = .unit :=
    (claim ⟨some (.error "lost"), .reject, some .str⟩
      ⟨[⟨.nowhere, ⟨.nowhere, "x", none⟩, .read .nowhere⟩], .unit .nowhere⟩
      (by simp [Program.innerGaps, Expr.gaps, Expr.isAbsent]) rfl).2 rfl
  cases same

/-- A function that calls itself, defined with its type, and a value that it is called for. -/
theorem program_matches_nest_of_recursion :
    let p : Program := ⟨[
      ⟨.nowhere, ⟨.nowhere, "f", some (.func [.bool] .num)⟩,
        .lambda .nowhere [⟨.nowhere, "b", some .bool⟩]
          (.call .nowhere (.var .nowhere "f") [.var .nowhere "b"])⟩,
      ⟨.nowhere, ⟨.nowhere, "x", none⟩, .call .nowhere (.var .nowhere "f") [.bool .nowhere true]⟩],
      .binary .nowhere .cons (.var .nowhere "x") (.read .nowhere)⟩
    (program .standard .empty p).notes = [] ∧ (expr .standard .empty p.nest).notes = [] ∧
      (expr .standard .empty p.nest).value = .pair .num .str := by
  intro p
  have clean : (program .standard .empty p).notes = [] := rfl
  obtain ⟨found, types⟩ := program_matches_nest .standard p
  rw [clean, List.forall₂_nil_left_iff] at found
  exact ⟨clean, found, (types clean).2 .str fun _ => .str⟩

end Check

end TypedForms
