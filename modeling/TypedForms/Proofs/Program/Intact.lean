import TypedForms.Outcome
import TypedForms.Proofs.Check.Flaws
import TypedForms.Proofs.Program.Grammar
import TypedForms.Proofs.Strict.Analysis
import TypedForms.Proofs.Ty.Render

/-! Sources without a syntax error. Every expression of the program they are read as is intact, so
that a check finds nothing malformed in it: what it notes is about unbound names and about types. -/
namespace TypedForms

/-- A written type has no placeholder in it. -/
def Ty.Definite (written : Option Ty) : Prop := ∀ t, written = some t → t.isConcrete = true

/-- The name has a written type, and that has no placeholder in it. -/
def Binder.Typed (b : Binder) : Prop := b.type.isSome = true ∧ Ty.Definite b.type

namespace Expr

/-- The expression is there and not broken, and the types that it needs are written. It is not about
the expressions inside. -/
def Intact : Expr → Prop
  | .absent | .broken .. => False
  | .letIn _ bindings _ => ∀ b ∈ bindings, Ty.Definite b.1.type
  | .letrec _ bindings _ => ∀ b ∈ bindings, b.1.Typed
  | .lambda _ params _ => ∀ b ∈ params, b.Typed
  | .list _ elem _ => Ty.Definite elem
  | _ => True

end Expr

/-- Every expression in the program is intact, and so are the written types of its definitions. -/
structure Program.Intact (p : Program) : Prop where
  types : ∀ d ∈ p.decls, Ty.Definite d.binder.type
  values : ∀ d ∈ p.decls, ∀ e ∈ d.value.subexprs, e.Intact
  result : ∀ e ∈ p.result.subexprs, e.Intact

/-! Spelled programs are intact. -/

theorem Ty.Spells.definite {tokens : List Token} {t : Ty} (spells : Spells tokens t) :
    Definite (some t) := by
  rintro _ ⟨⟩
  exact spells.isConcrete

theorem Binder.SpellParams.typed {tokens : List Token} {params : List Binder}
    (spells : SpellParams tokens params) : ∀ b ∈ params, b.Typed := by
  induction spells with
  | nil => simp
  | cons _ head _ ih =>
    cases head with | typed _ _ type =>
    exact List.forall_mem_cons.mpr ⟨⟨rfl, type.definite⟩, ih⟩

namespace Expr

theorem SpellsBinding.definite {form : BindingForm} {tokens : List Token} {b : Binder × Expr}
    (spells : SpellsBinding form tokens b) : Ty.Definite b.1.type := by
  cases spells with
  | plain => exact nofun
  | typed _ _ type => exact type.definite

theorem SpellsBinding.typed_of_letrec {tokens : List Token} {b : Binder × Expr}
    (spells : SpellsBinding .letrec tokens b) : b.1.Typed := by
  refine ⟨?_, spells.definite⟩
  cases spells with
  | plain optional => exact absurd rfl optional
  | typed => rfl

/-- What holds for the inside of every binding holds for all bindings in a group. -/
theorem SpellBindings.forall {form : BindingForm} {holds : Binder × Expr → Prop}
    (each : ∀ tokens b, SpellsBinding form tokens b → holds b) {tokens : List Token} :
    ∀ {bound : List (Binder × Expr)}, SpellBindings form tokens bound → ∀ b ∈ bound, holds b
  | _, .nil => by simp
  | _, .cons _ head tail => List.forall_mem_cons.mpr ⟨each _ _ head, tail.forall each⟩

mutual

theorem Spells.intact {tokens : List Token} {e : Expr} :
    Spells tokens e → ∀ s ∈ e.subexprs, s.Intact
  | .number .. | .string _ | .bool _ | .unit _ | .var _ | .read .. =>
    List.forall_mem_singleton.mpr trivial
  | .add _ _ parts => List.forall_mem_cons.mpr ⟨trivial, parts.intact⟩
  | .binary _ _ left right =>
    List.forall_mem_cons.mpr ⟨trivial, List.forall_mem_append.mpr ⟨left.intact, right.intact⟩⟩
  | .unary _ _ part => List.forall_mem_cons.mpr ⟨trivial, part.intact⟩
  | .branch _ _ cond yes no =>
    List.forall_mem_cons.mpr ⟨trivial, List.forall_mem_append.mpr
      ⟨List.forall_mem_append.mpr ⟨cond.intact, yes.intact⟩, no.intact⟩⟩
  | .letIn _ _ _ bindings body =>
    List.forall_mem_cons.mpr ⟨bindings.forall fun _ _ binding => binding.definite,
      List.forall_mem_append.mpr ⟨bindings.intact, body.intact⟩⟩
  | .letrec _ _ _ bindings body =>
    List.forall_mem_cons.mpr ⟨bindings.forall fun _ _ binding => binding.typed_of_letrec,
      List.forall_mem_append.mpr ⟨bindings.intact, body.intact⟩⟩
  | .lambda _ _ _ binders body => List.forall_mem_cons.mpr ⟨binders.typed, body.intact⟩
  | .call _ operator parts =>
    List.forall_mem_cons.mpr ⟨trivial, List.forall_mem_append.mpr ⟨operator.intact, parts.intact⟩⟩
  | .list _ _ parts => List.forall_mem_cons.mpr ⟨nofun, parts.intact⟩
  | .typedList _ _ _ type parts => List.forall_mem_cons.mpr ⟨type.definite, parts.intact⟩
  | .readFrom _ _ part => List.forall_mem_cons.mpr ⟨trivial, part.intact⟩

theorem SpellAll.intact {tokens : List Token} {es : List Expr} :
    SpellAll tokens es → ∀ s ∈ subexprsAll es, s.Intact
  | .nil => by simp [subexprsAll]
  | .cons head tail => List.forall_mem_append.mpr ⟨head.intact, tail.intact⟩

theorem SpellsBinding.intact {form : BindingForm} {tokens : List Token} {b : Binder × Expr} :
    SpellsBinding form tokens b → ∀ s ∈ b.2.subexprs, s.Intact
  | .plain _ _ part => part.intact
  | .typed _ _ _ part => part.intact

theorem SpellBindings.intact {form : BindingForm} {tokens : List Token}
    {bound : List (Binder × Expr)} :
    SpellBindings form tokens bound → ∀ s ∈ subexprsValues bound, s.Intact
  | .nil => by simp [subexprsValues]
  | .cons _ head tail => List.forall_mem_append.mpr ⟨head.intact, tail.intact⟩

end

end Expr

theorem Program.Spells.intact {tokens : List Token} {p : Program} (spells : Spells tokens p) :
    p.Intact := by
  induction spells with
  | result spells => exact ⟨by simp, by simp, spells.intact⟩
  | define head _ ih =>
    cases head with | define _ _ binding =>
    exact ⟨List.forall_mem_cons.mpr ⟨binding.definite, ih.types⟩,
      List.forall_mem_cons.mpr ⟨binding.intact, ih.values⟩, ih.result⟩

/-! Intact programs have no malformed part. -/

theorem Ty.Definite.flaws_eq_nil {written : Option Ty} {anchor : Token}
    (definite : Definite written) : flaws anchor written = [] := by
  cases written with
  | none => rfl
  | some t => rw [flaws, (isConcrete_iff.mp (definite t rfl)).1, if_neg Bool.false_ne_true]

theorem Binder.Typed.flaws_eq_nil {b : Binder} (typed : b.Typed) : b.flaws = [] := by
  obtain ⟨found, definite⟩ := typed
  obtain ⟨t, same⟩ := Option.isSome_iff_exists.mp found
  rw [same] at definite
  rw [Binder.flaws, same]
  exact definite.flaws_eq_nil

namespace Expr

theorem Intact.ownFlaws_eq_nil {e : Expr} (intact : e.Intact) : e.ownFlaws = [] := by
  cases e with
  | absent | broken => exact intact.elim
  | letIn token bindings body =>
    exact List.flatMap_eq_nil_iff.mpr fun b member => (intact b member).flaws_eq_nil
  | letrec token bindings body =>
    exact List.flatMap_eq_nil_iff.mpr fun b member => (intact b member).flaws_eq_nil
  | lambda token params body =>
    exact List.flatMap_eq_nil_iff.mpr fun b member => (intact b member).flaws_eq_nil
  | list token elem elems => exact Ty.Definite.flaws_eq_nil intact
  | _ => rfl

theorem formNotes_flaws_eq_nil {bound : Finset String} {e : Expr}
    (intact : ∀ s ∈ e.subexprs, s.Intact) : formNotes (e.flaws bound) = [] := by
  have none : e.subexprs.flatMap ownFlaws = [] :=
    List.flatMap_eq_nil_iff.mpr fun s member => (intact s member).ownFlaws_eq_nil
  exact (none ▸ formNotes_flaws_perm e).eq_nil

end Expr

theorem Decl.formNotes_flaws_eq_nil {bound : Finset String} {d : Decl}
    (definite : Ty.Definite d.binder.type) (intact : ∀ e ∈ d.value.subexprs, e.Intact) :
    Expr.formNotes (d.flaws bound) = [] := by
  unfold Decl.flaws
  split
  next => exact Expr.formNotes_flaws_eq_nil intact
  next type found =>
    have typed : d.binder.Typed := ⟨by rw [found, Option.isSome_some], definite⟩
    rw [typed.flaws_eq_nil, List.nil_append, Expr.formNotes_flaws_eq_nil intact]

theorem Decl.formNotes_flawsAll_eq_nil {bound : Finset String} {ds : List Decl}
    (definite : ∀ d ∈ ds, Ty.Definite d.binder.type)
    (intact : ∀ d ∈ ds, ∀ e ∈ d.value.subexprs, e.Intact) :
    Expr.formNotes (Decl.flawsAll bound ds) = [] := by
  induction ds generalizing bound with
  | nil => rfl
  | cons d ds ih =>
    obtain ⟨firstDefinite, restDefinite⟩ := List.forall_mem_cons.mp definite
    obtain ⟨firstIntact, restIntact⟩ := List.forall_mem_cons.mp intact
    rw [Decl.flawsAll, Expr.formNotes_append, formNotes_flaws_eq_nil firstDefinite firstIntact,
      ih restDefinite restIntact, List.append_nil]

theorem Program.Intact.formNotes_flaws_eq_nil {bound : Finset String} {p : Program}
    (intact : p.Intact) : Expr.formNotes (p.flaws bound) = [] := by
  rw [Program.flaws, Expr.formNotes_append,
    Decl.formNotes_flawsAll_eq_nil intact.types intact.values,
    Expr.formNotes_flaws_eq_nil intact.result, List.append_nil]

namespace Check

variable {o : Options} {env : Env Ty}

/-- A check of an intact program notes nothing malformed. -/
theorem not_malformed_of_intact {p : Program} (intact : p.Intact) :
    ∀ note ∈ (program o env p).notes, note.cause.category ≠ .malformed := by
  have none : Expr.formNotes (program o env p).notes = [] := by
    rw [formNotes_notes, flaws_program, intact.formNotes_flaws_eq_nil]
  intro note member malformed
  have found : note ∈ Expr.formNotes (program o env p).notes :=
    List.mem_filter.mpr ⟨member, by rw [malformed]; rfl⟩
  simp [none] at found

theorem category_ne_lapse {notes : List (Diagnostic TypeError)} (none : lapse? notes = none) :
    ∀ note ∈ notes, note.cause.category ≠ .lapse := by
  intro note member lapse
  have passed := List.find?_eq_none.mp none note.cause (List.mem_map_of_mem member)
  exact passed (by rw [lapse]; rfl)

end Check

/-- A source without a syntax error is read as an intact program, and so a check of it notes nothing
malformed: every problem that is reported for the source is a mismatch of types, an unbound name or
an evaluation that cannot be typed. -/
theorem Program.intact_of_accepted {file source : String}
    (accepted : (ofSource file source).notes = []) :
    (ofSource file source).value.Intact ∧
    ∀ o, (∀ note ∈ (Check.program o .empty (ofSource file source).value).notes,
        note.cause.category ≠ .malformed) ∧
      ∃ type errors, (Outcome.ofSource o file source).verdict = .checked type errors ∧
        ∀ note ∈ errors, note.cause.category = .mismatch ∨ note.cause.category = .unbound ∨
          note.cause.category = .untypable := by
  have intact : (ofSource file source).value.Intact :=
    (ofStream_eq_pure_iff.mp (Diagnosed.eq_pure_iff.mpr ⟨accepted, rfl⟩)).intact
  refine ⟨intact, fun o => ?_⟩
  have notMalformed := @Check.not_malformed_of_intact o .empty _ intact
  have verdict : (Outcome.ofSource o file source).verdict =
      .checked (Check.program o .empty (ofSource file source).value).value.1
        (Check.program o .empty (ofSource file source).value).notes := by
    simp [Outcome.ofSource, accepted]
  refine ⟨notMalformed, _, _, verdict, fun note member => ?_⟩
  have noLapse := Check.category_ne_lapse
    ((@Analysis.mirrors_types o file source).lapseIff.mpr trivial) note member
  have form := notMalformed note member
  cases category : note.cause.category with
  | mismatch => exact .inl rfl
  | unbound => exact .inr (.inl rfl)
  | untypable => exact .inr (.inr rfl)
  | malformed => exact absurd category form
  | lapse => exact absurd category noLapse

/-- All three kinds of problems, in a source without a syntax error. -/
theorem Program.intact_of_accepted_with_notes :
    (ofSource "" "(list : num x (eval \"1\") (lambda ((y : num)) y))").notes = [] ∧
    (ofSource "" "(list : num x (eval \"1\") (lambda ((y : num)) y))").value.Intact ∧
    ∃ type errors, (Outcome.ofSource .standard ""
        "(list : num x (eval \"1\") (lambda ((y : num)) y))").verdict = .checked type errors ∧
      errors.map (·.cause.category) = [.unbound, .untypable, .mismatch] ∧
      ∀ note ∈ errors, note.cause.category = .mismatch ∨ note.cause.category = .unbound ∨
        note.cause.category = .untypable := by
  have accepted :
      (ofSource "" "(list : num x (eval \"1\") (lambda ((y : num)) y))").notes = [] := by
    decide +kernel
  have noted : (Check.program .standard .empty (ofSource ""
      "(list : num x (eval \"1\") (lambda ((y : num)) y))").value).notes.map (·.cause.category) =
      [.unbound, .untypable, .mismatch] := by
    decide +kernel
  obtain ⟨intact, checks⟩ := intact_of_accepted accepted
  obtain ⟨_, type, errors, verdict, categories⟩ := checks .standard
  refine ⟨accepted, intact, type, errors, verdict, ?_, categories⟩
  simp only [Outcome.ofSource, accepted, List.isEmpty_nil, if_true,
    Verdict.checked.injEq] at verdict
  rw [← verdict.2, noted]

end TypedForms
