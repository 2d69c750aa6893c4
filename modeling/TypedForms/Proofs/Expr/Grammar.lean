import TypedForms.Proofs.Expr.Shape

/-! A datum is read as an expression without a note exactly if its tokens spell that
expression. -/
namespace TypedForms.Expr

variable {token opening : Token} {tokens : List Token} {d : Datum} {ds elems : List Datum}
  {e : Expr}

/-! Sound: an expression is only read from tokens that spell it. -/

theorem spells_of_ofToken (clean : ofToken token = pure e) : Spells [token] e := by
  unfold ofToken at clean
  split at clean
  next kind =>
    split at clean
    next value valued =>
      obtain rfl := Diagnosed.pure_inj.mp clean
      exact .number kind valued
    next => exact absurd clean malformed_ne_pure
  next kind =>
    obtain rfl := Diagnosed.pure_inj.mp clean
    exact .string kind
  next kind =>
    obtain rfl := Diagnosed.pure_inj.mp clean
    exact .bool kind
  next kind =>
    obtain rfl := Diagnosed.pure_inj.mp clean
    exact .unit kind
  next kind =>
    obtain rfl := Diagnosed.pure_inj.mp clean
    exact .var kind
  next => exact absurd clean malformed_ne_pure
  next => exact absurd clean malformed_ne_pure

theorem spellParams_of_shape {binders : List Binder} (spells : Datum.SpellAll tokens ds)
    (each : List.Forall₂ (Enclosed ParamShape) ds binders) :
    Binder.SpellParams tokens binders := by
  induction each generalizing tokens with
  | nil =>
    cases spells
    exact .nil
  | cons first _ ih =>
    cases spells with | cons head tail =>
    obtain ⟨opening, elems, rfl, shape⟩ := first
    cases head with | list parens inner =>
    cases shape with | typed nameKind colonKind typed =>
    obtain ⟨_, rfl, afterName⟩ := inner.of_atom_cons
    obtain ⟨_, rfl, afterColon⟩ := afterName.of_atom_cons
    have type := Ty.spells_of_clean (Datum.SpellAll.single_iff.mp afterColon) typed
    exact .cons parens (.typed nameKind colonKind type) (ih tail)

/-- Whatever the datum is read as without a note, its tokens spell. -/
def Sound (d : Datum) : Prop :=
  ∀ {tokens : List Token} {e : Expr}, Datum.Spells tokens d → ofDatum d = pure e → Spells tokens e

theorem spellAll_of_clean {es : List Expr} (sound : ∀ d ∈ ds, Sound d)
    (spells : Datum.SpellAll tokens ds) (each : List.Forall₂ (ofDatum · = pure ·) ds es) :
    SpellAll tokens es := by
  induction each generalizing tokens with
  | nil =>
    cases spells
    exact .nil
  | cons first _ ih =>
    cases spells with | cons head tail =>
    obtain ⟨firstSound, restSound⟩ := List.forall_mem_cons.mp sound
    exact .cons (firstSound head first) (ih restSound tail)

theorem spellsBinding_of_shape {form : BindingForm} {bound : Binder × Expr}
    (sound : ∀ d ∈ elems, Sound d) (spells : Datum.SpellAll tokens elems)
    (shape : BindingShape form elems bound) : SpellsBinding form tokens bound := by
  cases shape with
  | plain optional nameKind part =>
    obtain ⟨_, rfl, inner⟩ := spells.of_atom_cons
    exact .plain optional nameKind
      (sound _ (by simp) (Datum.SpellAll.single_iff.mp inner) part)
  | typed nameKind colonKind typed part =>
    obtain ⟨_, rfl, afterName⟩ := spells.of_atom_cons
    obtain ⟨_, rfl, afterColon⟩ := afterName.of_atom_cons
    cases afterColon with | cons typeSpells inner =>
    exact .typed nameKind colonKind (Ty.spells_of_clean typeSpells typed)
      (sound _ (by simp) (Datum.SpellAll.single_iff.mp inner) part)

theorem spellBindings_of_shape {form : BindingForm} {bound : List (Binder × Expr)}
    (sound : ∀ opening elems, .list opening elems ∈ ds → ∀ d ∈ elems, Sound d)
    (spells : Datum.SpellAll tokens ds)
    (each : List.Forall₂ (Enclosed (BindingShape form)) ds bound) :
    SpellBindings form tokens bound := by
  induction each generalizing tokens with
  | nil =>
    cases spells
    exact .nil
  | cons first _ ih =>
    cases spells with | cons head tail =>
    obtain ⟨opening, elems, rfl, shape⟩ := first
    cases head with | list parens inner =>
    have binding := spellsBinding_of_shape (sound opening elems List.mem_cons_self) inner shape
    have others := ih (fun opening elems member =>
      sound opening elems (List.mem_cons_of_mem _ member)) tail
    exact .cons parens binding others

/-- A form is spelled, if everything in it is at any depth. -/
theorem sound_list (smaller : ∀ d, sizeOf d < sizeOf (Datum.list opening elems) → Sound d) :
    Sound (.list opening elems) := by
  intro tokens e spells clean
  have each : ∀ d ∈ elems, Sound d := fun d member => smaller d (Datum.sizeOf_lt_of_mem member)
  have deep : ∀ {left group}, .list left group ∈ elems → ∀ opening' elems',
      .list opening' elems' ∈ group → ∀ d ∈ elems', Sound d := by
    intro left group outer opening' elems' middle d member
    exact smaller d (Nat.lt_trans (Datum.sizeOf_lt_of_mem member)
      (Nat.lt_trans (Datum.sizeOf_lt_of_mem middle) (Datum.sizeOf_lt_of_mem outer)))
  cases spells with | list parens inner =>
  cases shape_of_clean clean with
  | add kind operands =>
    obtain ⟨_, rfl, parts⟩ := inner.of_atom_cons
    exact .add parens kind (spellAll_of_clean (List.forall_mem_cons.mp each).2 parts operands)
  | binary kind left right =>
    obtain ⟨_, rfl, parts⟩ := inner.of_atom_cons
    cases parts with | cons first second =>
    exact .binary parens kind (each _ (by simp) first left)
      (each _ (by simp) (Datum.SpellAll.single_iff.mp second) right)
  | unary kind operand =>
    obtain ⟨_, rfl, part⟩ := inner.of_atom_cons
    exact .unary parens kind (each _ (by simp) (Datum.SpellAll.single_iff.mp part) operand)
  | branch kind cond yes no =>
    obtain ⟨_, rfl, parts⟩ := inner.of_atom_cons
    cases parts with | cons first parts =>
    cases parts with | cons second third =>
    exact .branch parens kind (each _ (by simp) first cond) (each _ (by simp) second yes)
      (each _ (by simp) (Datum.SpellAll.single_iff.mp third) no)
  | letIn kind values body =>
    obtain ⟨_, rfl, parts⟩ := inner.of_atom_cons
    cases parts with | cons group last =>
    cases group with | list groupParens bindings =>
    have bound := spellBindings_of_shape (deep (.tail _ (.head _))) bindings values
    exact .letIn parens kind groupParens bound
      (each _ (by simp) (Datum.SpellAll.single_iff.mp last) body)
  | letrec kind values body =>
    obtain ⟨_, rfl, parts⟩ := inner.of_atom_cons
    cases parts with | cons group last =>
    cases group with | list groupParens bindings =>
    have bound := spellBindings_of_shape (deep (.tail _ (.head _))) bindings values
    exact .letrec parens kind groupParens bound
      (each _ (by simp) (Datum.SpellAll.single_iff.mp last) body)
  | lambda kind params body =>
    obtain ⟨_, rfl, parts⟩ := inner.of_atom_cons
    cases parts with | cons group last =>
    cases group with | list groupParens binders =>
    exact .lambda parens kind groupParens (spellParams_of_shape binders params)
      (each _ (by simp) (Datum.SpellAll.single_iff.mp last) body)
  | call operator operands =>
    cases inner with | cons first parts =>
    exact .call parens (each _ List.mem_cons_self first operator)
      (spellAll_of_clean (List.forall_mem_cons.mp each).2 parts operands)
  | list kind elems =>
    obtain ⟨_, rfl, parts⟩ := inner.of_atom_cons
    exact .list parens kind (spellAll_of_clean (List.forall_mem_cons.mp each).2 parts elems)
  | typedList kind colonKind typed elems =>
    obtain ⟨_, rfl, afterHead⟩ := inner.of_atom_cons
    obtain ⟨_, rfl, afterColon⟩ := afterHead.of_atom_cons
    cases afterColon with | cons typeSpells parts =>
    exact .typedList parens kind colonKind (Ty.spells_of_clean typeSpells typed)
      (spellAll_of_clean (fun d member => each d (by simp [member])) parts elems)
  | read kind =>
    obtain ⟨_, rfl, parts⟩ := inner.of_atom_cons
    cases parts
    exact .read parens kind
  | readFrom kind source =>
    obtain ⟨_, rfl, part⟩ := inner.of_atom_cons
    exact .readFrom parens kind (each _ (by simp) (Datum.SpellAll.single_iff.mp part) source)

theorem spells_of_clean (d : Datum) : Sound d := by
  induction d using Datum.induction with
  | atom token =>
    intro tokens e spells clean
    rw [spells.of_atom]
    exact spells_of_ofToken clean
  | list opening elems ih => exact sound_list ih

/-! Complete: tokens that spell an expression are those of a datum that is read as it. -/

theorem exists_params {binders : List Binder} (spells : Binder.SpellParams tokens binders) :
    ∃ ds, Datum.SpellAll tokens ds ∧ List.Forall₂ (Enclosed ParamShape) ds binders := by
  induction spells with
  | nil => exact ⟨[], .nil, .nil⟩
  | cons parens head _ ih =>
    obtain ⟨ds, spells, each⟩ := ih
    cases head with | typed nameKind colonKind type =>
    obtain ⟨td, typeSpells, typed⟩ := Ty.exists_datum type
    have name := Datum.Spells.ofKind nameKind (by decide) (by decide)
    have colon := Datum.Spells.ofKind colonKind (by decide) (by decide)
    have inner := Datum.SpellAll.cons name (.cons colon (Datum.SpellAll.single_iff.mpr typeSpells))
    exact ⟨_, .cons (.list parens inner) spells,
      .cons ⟨_, _, rfl, .typed nameKind colonKind typed⟩ each⟩

mutual

theorem exists_datum {tokens : List Token} {e : Expr} :
    Spells tokens e → ∃ d, Datum.Spells tokens d ∧ ofDatum d = pure e
  | .number kind valued =>
    ⟨_, .ofKind kind (by decide) (by decide), by simp [ofDatum, ofToken, kind, valued]⟩
  | .string kind => ⟨_, .ofKind kind (by decide) (by decide), by simp [ofDatum, ofToken, kind]⟩
  | .bool kind => ⟨_, .ofKind kind (by decide) (by decide), by simp [ofDatum, ofToken, kind]⟩
  | .unit kind => ⟨_, .ofKind kind (by decide) (by decide), by simp [ofDatum, ofToken, kind]⟩
  | .var kind => ⟨_, .ofKind kind (by decide) (by decide), by simp [ofDatum, ofToken, kind]⟩
  | .add parens kind parts => by
    obtain ⟨ds, spells, operands⟩ := exists_data parts
    have head := Datum.Spells.ofKind kind (by decide) (by decide)
    exact ⟨_, .list parens (.cons head spells), clean_of_shape (.add kind operands)⟩
  | @Spells.binary opening closing head op _ _ _ _ parens kind leftPart rightPart => by
    obtain ⟨first, firstSpells, left⟩ := exists_datum leftPart
    obtain ⟨second, secondSpells, right⟩ := exists_datum rightPart
    have head := Datum.Spells.ofKind kind (by cases op <;> decide) (by cases op <;> decide)
    have parts := Datum.SpellAll.cons firstSpells (Datum.SpellAll.single_iff.mpr secondSpells)
    exact ⟨_, .list parens (.cons head parts), clean_of_shape (.binary kind left right)⟩
  | @Spells.unary opening closing head op _ _ parens kind part => by
    obtain ⟨d, spells, operand⟩ := exists_datum part
    have head := Datum.Spells.ofKind kind (by cases op <;> decide) (by cases op <;> decide)
    exact ⟨_, .list parens (.cons head (Datum.SpellAll.single_iff.mpr spells)),
      clean_of_shape (.unary kind operand)⟩
  | .branch parens kind condPart yesPart noPart => by
    obtain ⟨first, firstSpells, cond⟩ := exists_datum condPart
    obtain ⟨second, secondSpells, yes⟩ := exists_datum yesPart
    obtain ⟨third, thirdSpells, no⟩ := exists_datum noPart
    have head := Datum.Spells.ofKind kind (by decide) (by decide)
    have parts := Datum.SpellAll.cons firstSpells
      (.cons secondSpells (Datum.SpellAll.single_iff.mpr thirdSpells))
    exact ⟨_, .list parens (.cons head parts), clean_of_shape (.branch kind cond yes no)⟩
  | .letIn parens kind groupParens bindings bodyPart => by
    obtain ⟨group, groupSpells, values⟩ := exists_bindings bindings
    obtain ⟨d, spells, body⟩ := exists_datum bodyPart
    have head := Datum.Spells.ofKind kind (by decide) (by decide)
    have parts := Datum.SpellAll.cons (.list groupParens groupSpells)
      (Datum.SpellAll.single_iff.mpr spells)
    exact ⟨_, .list parens (.cons head parts), clean_of_shape (.letIn kind values body)⟩
  | .letrec parens kind groupParens bindings bodyPart => by
    obtain ⟨group, groupSpells, values⟩ := exists_bindings bindings
    obtain ⟨d, spells, body⟩ := exists_datum bodyPart
    have head := Datum.Spells.ofKind kind (by decide) (by decide)
    have parts := Datum.SpellAll.cons (.list groupParens groupSpells)
      (Datum.SpellAll.single_iff.mpr spells)
    exact ⟨_, .list parens (.cons head parts), clean_of_shape (.letrec kind values body)⟩
  | .lambda parens kind groupParens binders bodyPart => by
    obtain ⟨group, groupSpells, params⟩ := exists_params binders
    obtain ⟨d, spells, body⟩ := exists_datum bodyPart
    have head := Datum.Spells.ofKind kind (by decide) (by decide)
    have parts := Datum.SpellAll.cons (.list groupParens groupSpells)
      (Datum.SpellAll.single_iff.mpr spells)
    exact ⟨_, .list parens (.cons head parts), clean_of_shape (.lambda kind params body)⟩
  | .call parens operatorPart parts => by
    obtain ⟨d, spells, operator⟩ := exists_datum operatorPart
    obtain ⟨ds, restSpell, operands⟩ := exists_data parts
    exact ⟨_, .list parens (.cons spells restSpell), clean_of_shape (.call operator operands)⟩
  | .list parens kind parts => by
    obtain ⟨ds, spells, elems⟩ := exists_data parts
    have head := Datum.Spells.ofKind kind (by decide) (by decide)
    exact ⟨_, .list parens (.cons head spells), clean_of_shape (.list kind elems)⟩
  | .typedList parens kind colonKind type parts => by
    obtain ⟨td, typeSpells, typed⟩ := Ty.exists_datum type
    obtain ⟨ds, spells, elems⟩ := exists_data parts
    have head := Datum.Spells.ofKind kind (by decide) (by decide)
    have colon := Datum.Spells.ofKind colonKind (by decide) (by decide)
    exact ⟨_, .list parens (.cons head (.cons colon (.cons typeSpells spells))),
      clean_of_shape (.typedList kind colonKind typed elems)⟩
  | .read parens kind => by
    have head := Datum.Spells.ofKind kind (by decide) (by decide)
    exact ⟨_, .list parens (Datum.SpellAll.single_iff.mpr head), clean_of_shape (.read kind)⟩
  | .readFrom parens kind part => by
    obtain ⟨d, spells, source⟩ := exists_datum part
    have head := Datum.Spells.ofKind kind (by decide) (by decide)
    exact ⟨_, .list parens (.cons head (Datum.SpellAll.single_iff.mpr spells)),
      clean_of_shape (.readFrom kind source)⟩

theorem exists_data {tokens : List Token} {es : List Expr} :
    SpellAll tokens es →
      ∃ ds, Datum.SpellAll tokens ds ∧ List.Forall₂ (ofDatum · = pure ·) ds es
  | .nil => ⟨[], .nil, .nil⟩
  | .cons head tail => by
    obtain ⟨d, spells, clean⟩ := exists_datum head
    obtain ⟨ds, restSpell, restClean⟩ := exists_data tail
    exact ⟨d :: ds, .cons spells restSpell, .cons clean restClean⟩

theorem exists_binding {form : BindingForm} {tokens : List Token} {bound : Binder × Expr} :
    SpellsBinding form tokens bound →
      ∃ elems, Datum.SpellAll tokens elems ∧ BindingShape form elems bound
  | .plain optional nameKind part => by
    obtain ⟨d, spells, value⟩ := exists_datum part
    have name := Datum.Spells.ofKind nameKind (by decide) (by decide)
    exact ⟨_, .cons name (Datum.SpellAll.single_iff.mpr spells), .plain optional nameKind value⟩
  | .typed nameKind colonKind type part => by
    obtain ⟨td, typeSpells, typed⟩ := Ty.exists_datum type
    obtain ⟨d, spells, value⟩ := exists_datum part
    have name := Datum.Spells.ofKind nameKind (by decide) (by decide)
    have colon := Datum.Spells.ofKind colonKind (by decide) (by decide)
    have rest := Datum.SpellAll.cons typeSpells (Datum.SpellAll.single_iff.mpr spells)
    exact ⟨_, .cons name (.cons colon rest), .typed nameKind colonKind typed value⟩

theorem exists_bindings {form : BindingForm} {tokens : List Token} {bound : List (Binder × Expr)} :
    SpellBindings form tokens bound →
      ∃ ds, Datum.SpellAll tokens ds ∧ List.Forall₂ (Enclosed (BindingShape form)) ds bound
  | .nil => ⟨[], .nil, .nil⟩
  | .cons parens head tail => by
    obtain ⟨elems, inner, shape⟩ := exists_binding head
    obtain ⟨ds, restSpell, restShape⟩ := exists_bindings tail
    exact ⟨_, .cons (.list parens inner) restSpell, .cons ⟨_, elems, rfl, shape⟩ restShape⟩

end

end TypedForms.Expr
