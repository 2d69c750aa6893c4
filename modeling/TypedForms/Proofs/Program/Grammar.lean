import TypedForms.Program.Parse
import TypedForms.Proofs.Expr.Grammar

/-! A source is read as a program without a note exactly if its tokens spell that program. -/
namespace TypedForms

/-- The forms at the top level of a source. -/
inductive Form.Spells : List Token → Form → Prop where
  | define {tokens decl} (spells : Decl.Spells tokens decl) : Spells tokens (.define decl)
  | expr {tokens e} (spells : Expr.Spells tokens e) : Spells tokens (.expr e)

inductive Form.SpellAll : List Token → List Form → Prop where
  | nil : SpellAll [] []
  | cons {first rest form forms} (head : Spells first form) (tail : SpellAll rest forms) :
    SpellAll (first ++ rest) (form :: forms)

namespace Form

variable {tokens : List Token} {d : Datum} {ds : List Datum} {form : Form} {forms : List Form}

theorem single_iff : SpellAll tokens [form] ↔ Spells tokens form := by
  constructor
  · intro spells
    cases spells with | cons head tail =>
    cases tail
    simpa using head
  · intro spells
    simpa using SpellAll.cons spells .nil

/-- The data that are read as definitions. -/
theorem parts?_eq_some_iff {opening head : Token} {args : List Datum} :
    Decl.parts? d = some (opening, head, args) ↔
      d = .list opening (.atom head :: args) ∧ head.kind = .keyword .define := by
  constructor
  · intro parts
    unfold Decl.parts? at parts
    split at parts
    next =>
      split at parts
      next isDefine =>
        obtain ⟨head, rfl, kind⟩ := Datum.isAtom_iff.mp isDefine
        simp only [Option.some.injEq, Prod.mk.injEq, Datum.token_atom] at parts
        obtain ⟨rfl, rfl, rfl⟩ := parts
        exact ⟨rfl, kind⟩
      next => contradiction
    next => contradiction
  · rintro ⟨rfl, kind⟩
    simp [Decl.parts?, kind]

/-- A definition is no expression. -/
theorem parts?_of_clean {e : Expr} (clean : Expr.ofDatum d = pure e) : Decl.parts? d = none := by
  cases parts : Decl.parts? d with
  | none => rfl
  | some found =>
    obtain ⟨opening, head, args⟩ := found
    obtain ⟨rfl, kind⟩ := parts?_eq_some_iff.mp parts
    have isDefine := @Expr.Head.ofDatum_atom _ .define _ kind rfl
    unfold Expr.ofDatum at clean
    simp only [isDefine] at clean
    exact absurd clean Expr.malformed_ne_pure

theorem spells_of_clean {result : Option Form} (spells : Datum.Spells tokens d)
    (clean : ofDatum d = pure result) : ∃ form, Spells tokens form ∧ result = some form := by
  unfold ofDatum at clean
  split at clean
  next opening head args parts =>
    obtain ⟨rfl, kind⟩ := parts?_eq_some_iff.mp parts
    cases spells with | list parens inner =>
    obtain ⟨inside, rfl, argsSpell⟩ := inner.of_atom_cons
    simp only [Decl.ofParts, Diagnosed.bind_eq_pure_iff, Diagnosed.pure_inj] at clean
    obtain ⟨_, ⟨_, bindingClean, clean⟩, rfl⟩ := clean
    obtain ⟨⟨binder, value⟩, shape, rfl⟩ := Expr.binding_eq_pure_iff.mp bindingClean
    obtain rfl := Diagnosed.pure_inj.mp clean
    have binding :=
      Expr.spellsBinding_of_shape (fun d _ => Expr.spells_of_clean d) argsSpell shape
    exact ⟨_, .define (.define parens kind binding), rfl⟩
  next =>
    simp only [Diagnosed.bind_eq_pure_iff, Diagnosed.pure_inj] at clean
    obtain ⟨e, exprClean, rfl⟩ := clean
    exact ⟨_, .expr (Expr.spells_of_clean d spells exprClean), rfl⟩

theorem exists_datum (spells : Spells tokens form) :
    ∃ d, Datum.Spells tokens d ∧ ofDatum d = pure (some form) := by
  cases spells with
  | define spells =>
    cases spells with | define parens kind binding =>
    obtain ⟨args, argsSpell, shape⟩ := Expr.exists_binding binding
    have head := Datum.Spells.ofKind kind (by decide) (by decide)
    refine ⟨_, .list parens (.cons head argsSpell), ?_⟩
    simp [ofDatum, parts?_eq_some_iff.mpr ⟨rfl, kind⟩, Decl.ofParts,
      Expr.binding_eq_pure_iff.mpr ⟨_, shape, rfl⟩]
  | expr spells =>
    obtain ⟨d, spells, clean⟩ := Expr.exists_datum spells
    exact ⟨d, spells, by simp [ofDatum, parts?_of_clean clean, clean]⟩

theorem ofItem_eq_pure_iff {item : Item} {result : Option Form} :
    ofItem item = pure result ↔ ∃ d, item = .form d [] ∧ ofDatum d = pure result := by
  cases item with
  | stray token =>
    refine iff_of_false Diagnosed.note_bind_ne_pure ?_
    rintro ⟨d, same, _⟩
    cases same
  | form d unclosed =>
    simp only [ofItem, Diagnosed.bind_eq_pure_iff]
    constructor
    · rintro ⟨_, closed, clean⟩
      obtain rfl := Diagnosed.eq_nil_of_sequence_note closed
      exact ⟨d, rfl, clean⟩
    · rintro ⟨_, same, clean⟩
      obtain ⟨rfl, rfl⟩ := Item.form.inj same
      exact ⟨[], rfl, clean⟩

theorem exists_data_of_clean {items : List Item} {results : List (Option Form)}
    (clean : List.Forall₂ (ofItem · = pure ·) items results) :
    ∃ ds, items = ds.map (.form · []) ∧ List.Forall₂ (ofDatum · = pure ·) ds results := by
  induction clean with
  | nil => exact ⟨[], rfl, .nil⟩
  | cons first _ ih =>
    obtain ⟨d, rfl, firstClean⟩ := ofItem_eq_pure_iff.mp first
    obtain ⟨ds, rfl, restClean⟩ := ih
    exact ⟨d :: ds, rfl, .cons firstClean restClean⟩

theorem spellAll_of_clean {results : List (Option Form)} (spells : Datum.SpellAll tokens ds)
    (clean : List.Forall₂ (ofDatum · = pure ·) ds results) :
    ∃ forms, SpellAll tokens forms ∧ results = forms.map some := by
  induction clean generalizing tokens with
  | nil =>
    cases spells
    exact ⟨[], .nil, rfl⟩
  | cons firstClean _ ih =>
    cases spells with | cons head tail =>
    obtain ⟨form, formSpells, rfl⟩ := spells_of_clean head firstClean
    obtain ⟨forms, formsSpell, rfl⟩ := ih tail
    exact ⟨form :: forms, .cons formSpells formsSpell, rfl⟩

theorem exists_data (spells : SpellAll tokens forms) :
    ∃ ds, Datum.SpellAll tokens ds ∧
      List.Forall₂ (ofItem · = pure ·) (ds.map (.form · [])) (forms.map some) := by
  induction spells with
  | nil => exact ⟨[], .nil, .nil⟩
  | cons head _ ih =>
    obtain ⟨d, spells, clean⟩ := exists_datum head
    obtain ⟨ds, restSpell, restClean⟩ := ih
    refine ⟨d :: ds, .cons spells restSpell, .cons ?_ restClean⟩
    exact ofItem_eq_pure_iff.mpr ⟨d, rfl, clean⟩

/-- A source has no problem with its forms exactly if its tokens spell them. -/
theorem ofStream_eq_pure_iff {stream : TokenStream} :
    ofStream stream = pure forms ↔ SpellAll stream.tokens forms := by
  simp only [ofStream, ofItems, Diagnosed.bind_eq_pure_iff, Diagnosed.pure_inj,
    Diagnosed.sequence_eq_pure_iff, List.forall₂_map_left_iff]
  constructor
  · rintro ⟨results, clean, rfl⟩
    obtain ⟨ds, items, each⟩ := exists_data_of_clean clean
    obtain ⟨forms, spells, rfl⟩ := spellAll_of_clean (Item.ofTokens_eq_forms_iff.mp items) each
    simpa using spells
  · intro spells
    obtain ⟨ds, dataSpell, each⟩ := exists_data spells
    refine ⟨forms.map some, ?_, by simp⟩
    rw [Item.ofTokens_eq_forms_iff.mpr dataSpell]
    exact each

end Form

namespace Program

variable {tokens : List Token} {p : Program}

/-- Forms make up a program exactly if they are its definitions and its result. -/
theorem ofForms_eq_pure_iff {finish : Token} {forms : List Form} :
    ofForms finish forms = pure p ↔ forms = p.decls.map .define ++ [.expr p.result] := by
  induction forms generalizing p with
  | nil =>
    refine iff_of_false Diagnosed.note_bind_ne_pure ?_
    simp
  | cons form forms ih =>
    obtain ⟨decls, result⟩ := p
    cases form with
    | define decl =>
      simp only [ofForms, Diagnosed.bind_eq_pure_iff, Diagnosed.pure_inj, ih]
      constructor
      · rintro ⟨q, rfl, same⟩
        obtain ⟨rfl, rfl⟩ := Program.mk.inj same
        rfl
      · intro same
        cases decls with
        | nil => simp at same
        | cons d ds =>
          obtain ⟨head, rfl⟩ := List.cons.inj same
          obtain rfl := Form.define.inj head
          exact ⟨⟨ds, result⟩, rfl, rfl⟩
    | expr e =>
      simp only [ofForms, Diagnosed.bind_eq_pure_iff, Diagnosed.pure_inj,
        Diagnosed.sequence_eq_pure_iff, List.forall₂_map_left_iff]
      constructor
      · rintro ⟨_, extra, same⟩
        obtain ⟨rfl, rfl⟩ := Program.mk.inj same
        cases extra with
        | nil => rfl
        | @cons form _ _ _ noted _ =>
          cases form <;> simp [Form.noteExtra, Diagnosed.eq_pure_iff] at noted
      · intro same
        cases decls with
        | nil =>
          obtain ⟨head, rfl⟩ := List.cons.inj same
          obtain rfl := Form.expr.inj head
          exact ⟨[], .nil, rfl⟩
        | cons d ds => simp at same

theorem spells_iff : Spells tokens p ↔
    Form.SpellAll tokens (p.decls.map .define ++ [.expr p.result]) := by
  constructor
  · intro spells
    induction spells with
    | result spells => exact Form.single_iff.mpr (.expr spells)
    | define head _ ih => exact .cons (.define head) ih
  · obtain ⟨decls, e⟩ := p
    intro spells
    induction decls generalizing tokens with
    | nil =>
      cases Form.single_iff.mp spells with | expr spells =>
      exact .result spells
    | cons d ds ih =>
      cases spells with | cons head tail =>
      cases head with | define head =>
      exact .define head (ih tail)

theorem ofStream_eq_pure_iff {stream : TokenStream} :
    ofStream stream = pure p ↔ Spells stream.tokens p := by
  simp only [ofStream, Diagnosed.bind_eq_pure_iff, ofForms_eq_pure_iff, exists_eq_right,
    Form.ofStream_eq_pure_iff]
  exact spells_iff.symm

/-- A source is accepted exactly if its tokens are generated by the grammar, and it is then read
as the one program that they spell. -/
theorem accepts_iff_spells (file source : String) :
    ((ofSource file source).notes = [] ↔
      ∃ p, Spells (TokenStream.ofSource file source).tokens p) ∧
    ∀ p, Spells (TokenStream.ofSource file source).tokens p →
      (ofSource file source).value = p := by
  have cleanIff : ∀ p, ofSource file source = pure p ↔ _ := fun p => ofStream_eq_pure_iff
  refine ⟨⟨fun accepted => ?_, ?_⟩, fun p spells => ?_⟩
  · exact ⟨_, (cleanIff _).mp (Diagnosed.eq_pure_iff.mpr ⟨accepted, rfl⟩)⟩
  · rintro ⟨p, spells⟩
    exact (Diagnosed.eq_pure_iff.mp ((cleanIff p).mpr spells)).1
  · exact (Diagnosed.eq_pure_iff.mp ((cleanIff p).mpr spells)).2

end Program

end TypedForms
