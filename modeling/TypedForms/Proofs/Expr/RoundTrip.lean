import TypedForms.Proofs.Expr.Retext
import TypedForms.Proofs.Ty.Render

/-! Printed expressions. The text of an expression that was read from a source is read as tokens
that spell it again, but for its string constants: those are what reading makes of their quoted
forms. -/
namespace TypedForms

/-- In parentheses that were scanned, the opening one looks like any other. -/
theorem Token.scanned_inside {opening closing : Token} {inside : List Token}
    (parens : Token.Parens opening closing)
    (scanned : ∀ t ∈ opening.enclose inside closing, t.Scanned) :
    opening.unplaced = ⟨.mark .lparen, "(", nowhere.pos⟩ ∧ ∀ t ∈ inside, t.Scanned := by
  obtain ⟨first, rest⟩ := List.forall_mem_cons.mp scanned
  refine ⟨?_, (List.forall_mem_append.mp rest).1⟩
  have literal : opening.literal = "(" := first.fits parens.opens
  rw [unplaced_of_kind parens.opens, literal]

/-- The same, of a form with a group in parentheses after its head. -/
theorem Token.scanned_group {opening closing head left right : Token} {group inside : List Token}
    (parens : Token.Parens opening closing) (groupParens : Token.Parens left right)
    (scanned : ∀ t ∈ opening.enclose (head :: (left.enclose group right ++ inside)) closing,
      t.Scanned) :
    opening.unplaced = ⟨.mark .lparen, "(", nowhere.pos⟩ ∧ (∀ t ∈ group, t.Scanned) ∧
      ∀ t ∈ inside, t.Scanned := by
  obtain ⟨opens, insideScanned⟩ := scanned_inside parens scanned
  obtain ⟨_, restScanned⟩ := List.forall_mem_cons.mp insideScanned
  obtain ⟨groupScanned, lastScanned⟩ := List.forall_mem_append.mp restScanned
  exact ⟨opens, (scanned_inside groupParens groupScanned).2, lastScanned⟩

namespace Expr

/-! Trees that were read from a source. -/

/-- Nothing is missing, and string constants have the texts of their tokens. -/
structure Whole (gaps : List Gap) (strings : List (Token × String)) : Prop where
  complete : gaps = []
  literal : ∀ s ∈ strings, s.1.literal = s.2

theorem Whole.nil : Whole [] [] := ⟨rfl, by simp⟩

theorem Whole.append {gaps gaps' : List Gap} {strings strings' : List (Token × String)}
    (left : Whole gaps strings) (right : Whole gaps' strings') :
    Whole (gaps ++ gaps') (strings ++ strings') :=
  ⟨List.append_eq_nil_iff.mpr ⟨left.complete, right.complete⟩,
    List.forall_mem_append.mpr ⟨left.literal, right.literal⟩⟩

theorem whole_params {tokens : List Token} {params : List Binder}
    (spells : Binder.SpellParams tokens params) :
    Whole ((params.filter (·.type.isNone)).map fun _ => .parameterType) [] := by
  induction spells with
  | nil => exact .nil
  | cons _ head _ ih =>
    cases head
    exact ih

mutual

theorem Spells.whole {tokens : List Token} {e : Expr} : Spells tokens e → Whole e.gaps e.strings
  | .number .. | .bool _ | .unit _ | .var _ | .read .. => .nil
  | .string _ => ⟨rfl, by simp [strings]⟩
  | .add _ _ parts => parts.whole
  | .binary _ _ left right => left.whole.append right.whole
  | .unary _ _ part => part.whole
  | .branch _ _ cond yes no => (cond.whole.append yes.whole).append no.whole
  | .letIn _ _ _ bindings body => bindings.whole.append body.whole
  | .letrec _ _ _ bindings body => bindings.whole.append body.whole
  | .lambda _ _ _ binders body => (whole_params binders).append body.whole
  | .call _ operator parts => operator.whole.append parts.whole
  | .list _ _ parts => parts.whole
  | .typedList _ _ _ _ parts => parts.whole
  | .readFrom _ _ part => part.whole

theorem SpellAll.whole {tokens : List Token} {es : List Expr} :
    SpellAll tokens es → Whole (gapsAll es) (stringsAll es)
  | .nil => .nil
  | .cons head tail => head.whole.append tail.whole

theorem SpellsBinding.whole {form : BindingForm} {tokens : List Token} {bound : Binder × Expr} :
    SpellsBinding form tokens bound → Whole bound.2.gaps bound.2.strings
  | .plain _ _ part => part.whole
  | .typed _ _ _ part => part.whole

theorem SpellBindings.whole {form : BindingForm} {tokens : List Token}
    {bound : List (Binder × Expr)} :
    SpellBindings form tokens bound → Whole (gapsBindings bound) (stringsBindings bound)
  | .nil => .nil
  | .cons _ head tail => head.whole.append tail.whole

end

/-! Reading printed expressions. -/

open Scanner (Reads)
open Text (rereadText)

theorem reads_binaryOp (op : BinaryOp) :
    Reads op.spelling.toList (Token.single op.kind op.spelling) := by
  cases op <;> exact .spelled (by decide) (by decide) rfl

theorem reads_unaryOp (op : UnaryOp) :
    Reads op.spelling.toList (Token.single op.kind op.spelling) := by
  cases op <;> exact .spelled (by decide) (by decide) rfl

/-- The token sequences that spell an expression again, as far as its strings survive. -/
def respellings (e : Expr) : Language Token :=
  {tokens | ∃ e', Spells tokens e' ∧ e'.retext id = e.retext rereadText}

def respellingsAll (es : List Expr) : Language Token :=
  {tokens | ∃ es', SpellAll tokens es' ∧ retextAll id es' = retextAll rereadText es}

def respellingsBinding (form : BindingForm) (binding : Binder × Expr) : Language Token :=
  {tokens | ∃ binder value, SpellsBinding form tokens (binder, value) ∧
    binder.unplaced = binding.1.unplaced ∧ value.retext id = binding.2.retext rereadText}

def respellingsBindings (form : BindingForm) (bindings : List (Binder × Expr)) : Language Token :=
  {tokens | ∃ bindings', SpellBindings form tokens bindings' ∧
    retextBindings id bindings' = retextBindings rereadText bindings}

def respellingsParams (params : List Binder) : Language Token :=
  {tokens | ∃ params', Binder.SpellParams tokens params' ∧
    params'.map Binder.unplaced = params.map Binder.unplaced}

/-- A name with its written type. -/
theorem reads_typedName {name : Token} {inside : List Token} {t : Ty}
    (scanned : name.Scanned) (kind : name.kind = .ident) (type : Ty.Spells inside t) :
    Reads (Binder.render ⟨name, name.literal, some t⟩).toList
      (Token.single .ident name.literal * (Token.single (.mark .colon) ":" * t.spellings)) := by
  have text : (Binder.render ⟨name, name.literal, some t⟩).toList =
      name.literal.toList ++ ' ' :: ([':'] ++ ' ' :: t.render.toList) := by
    simp [Binder.render, String.toList_append]
  have word := scanned.reads kind (by simp) (by simp) (by simp)
  rw [text]
  exact word.apart (Reads.colon.apart (t.reads_render type.isConcrete) (.inl rfl)) (.inl rfl)

theorem reads_params {tokens : List Token} {params : List Binder}
    (spells : Binder.SpellParams tokens params) (scanned : ∀ t ∈ tokens, t.Scanned) :
    Reads (Text.joined " " (params.map fun param => Text.parens [param.render])).toList
      (respellingsParams params) := by
  induction spells with
  | nil =>
    refine Reads.joined_nil.mono ?_
    rintro _ rfl
    exact ⟨[], .nil, rfl⟩
  | cons _ head _ ih =>
    cases head with | @typed name colon inside t nameKind colonKind type =>
    simp only [Token.enclose, List.cons_append, List.forall_mem_cons, List.forall_mem_append]
      at scanned
    obtain ⟨_, nameScanned, _, _, restScanned⟩ := scanned
    have first := (reads_typedName nameScanned nameKind type).joined_single.parensText
    refine (first.cons (ih restScanned)).mono ?_
    rintro _ ⟨_, ⟨start, finish, _, ⟨_, ⟨pos, rfl⟩, _, ⟨_, ⟨_, rfl⟩, inner, innerSpells, rfl⟩,
      rfl⟩, rfl⟩, rest, ⟨params', spells, same⟩, rfl⟩
    refine ⟨⟨⟨.ident, name.literal, pos⟩, name.literal, some t⟩ :: params',
      .cons ⟨rfl, rfl⟩ (.typed rfl rfl innerSpells) spells, ?_⟩
    simp [same, Binder.unplaced, Token.unplaced_of_kind nameKind]

/-- A form with a group in parentheses after its head. -/
theorem reads_group {k : Keyword} {parts : List String} {body : Expr} {group : Language Token}
    (groupReads : Reads (Text.joined " " parts).toList group)
    (bodyReads : Reads body.render.toList body.respellings) :
    Reads (Text.parens [k.spelling, Text.parens parts, body.render]).toList
      (Token.parens (Token.single (.keyword k) k.spelling *
        (Token.parens group * body.respellings))) :=
  ((Reads.keyword k).cons (groupReads.parensText.cons bodyReads.joined_single)).parensText

mutual

theorem reads_render {tokens : List Token} {e : Expr} :
    Spells tokens e → (∀ t ∈ tokens, t.Scanned) → Reads e.render.toList e.respellings
  | @Spells.number token value kind valued, scanned => by
    have tokenScanned := scanned token List.mem_cons_self
    obtain ⟨nonempty, _⟩ := tokenScanned.isWord (by simp [kind]) (by simp [kind]) (by simp [kind])
    have text : render (.number token value) = token.literal := by
      have written : token.literal ≠ "" := by
        intro empty
        simp [empty] at nonempty
      simp [render, written]
    rw [text]
    refine (tokenScanned.reads kind (by simp) (by simp) (by simp)).mono ?_
    rintro _ ⟨pos, rfl⟩
    exact ⟨.number ⟨.number, token.literal, pos⟩ value, .number rfl valued,
      by simp [retext, Token.unplaced_of_kind kind]⟩
  | @Spells.string token kind, scanned => by
    refine (Reads.quote token.literal).mono ?_
    rintro _ ⟨pos, rfl⟩
    exact ⟨.string ⟨.string, rereadText token.literal, pos⟩ (rereadText token.literal), .string rfl,
      by simp [retext, Token.unplaced_of_kind kind]⟩
  | @Spells.bool token kind, scanned => by
    have tokenScanned := scanned token List.mem_cons_self
    have text : render (.bool token (token.literal == "#t")) = token.literal := by
      rcases tokenScanned.fits kind with same | same <;> simp [render, same]
    rw [text]
    refine (tokenScanned.reads kind (by simp) (by simp) (by simp)).mono ?_
    rintro _ ⟨pos, rfl⟩
    exact ⟨.bool ⟨.bool, token.literal, pos⟩ (token.literal == "#t"), .bool rfl,
      by simp [retext, Token.unplaced_of_kind kind]⟩
  | @Spells.unit token kind, scanned => by
    have literal : token.literal = Keyword.unit.spelling :=
      (scanned token List.mem_cons_self).fits kind
    refine (Reads.keyword .unit).mono ?_
    rintro _ ⟨pos, rfl⟩
    exact ⟨.unit ⟨.keyword .unit, Keyword.unit.spelling, pos⟩, .unit rfl,
      by simp [retext, Token.unplaced_of_kind kind, literal]⟩
  | @Spells.var token kind, scanned => by
    have tokenScanned := scanned token List.mem_cons_self
    refine (tokenScanned.reads kind (by simp) (by simp) (by simp)).mono ?_
    rintro _ ⟨pos, rfl⟩
    exact ⟨.var ⟨.ident, token.literal, pos⟩ token.literal, .var rfl,
      by simp [retext, Token.unplaced_of_kind kind]⟩
  | .add parens kind parts, scanned => by
    obtain ⟨opens, insideScanned⟩ := Token.scanned_inside parens scanned
    obtain ⟨_, partsScanned⟩ := List.forall_mem_cons.mp insideScanned
    have head : Reads "+".toList (Token.single (.mark .add) "+") :=
      .spelled (by decide) (by decide) rfl
    refine (head.cons (reads_renderAll parts partsScanned)).parensText.mono ?_
    rintro _ ⟨start, finish, _, ⟨_, ⟨pos, rfl⟩, inside, ⟨es, spells, same⟩, rfl⟩, rfl⟩
    exact ⟨.add _ es, .add ⟨rfl, rfl⟩ rfl spells, by simp [retext, same, opens]⟩
  | @Spells.binary _ _ _ op _ _ _ _ parens kind leftPart rightPart, scanned => by
    obtain ⟨opens, insideScanned⟩ := Token.scanned_inside parens scanned
    simp only [List.forall_mem_cons, List.forall_mem_append] at insideScanned
    obtain ⟨_, leftScanned, rightScanned⟩ := insideScanned
    have inside := (reads_binaryOp op).cons ((reads_render leftPart leftScanned).cons
      (reads_render rightPart rightScanned).joined_single)
    refine inside.parensText.mono ?_
    rintro _ ⟨start, finish, _, ⟨_, ⟨pos, rfl⟩, _, ⟨first, ⟨left, leftSpells, leftSame⟩, second,
      ⟨right, rightSpells, rightSame⟩, rfl⟩, rfl⟩, rfl⟩
    exact ⟨.binary _ op left right,
      @Spells.binary _ _ _ _ first second _ _ ⟨rfl, rfl⟩ rfl leftSpells rightSpells,
      by simp [retext, leftSame, rightSame, opens]⟩
  | @Spells.unary _ _ _ op _ _ parens kind part, scanned => by
    obtain ⟨opens, insideScanned⟩ := Token.scanned_inside parens scanned
    obtain ⟨_, partScanned⟩ := List.forall_mem_cons.mp insideScanned
    have inside := (reads_unaryOp op).cons (reads_render part partScanned).joined_single
    refine inside.parensText.mono ?_
    rintro _ ⟨start, finish, _, ⟨_, ⟨pos, rfl⟩, inside, ⟨e, spells, same⟩, rfl⟩, rfl⟩
    exact ⟨.unary _ op e, .unary ⟨rfl, rfl⟩ rfl spells, by simp [retext, same, opens]⟩
  | .branch parens kind condPart yesPart noPart, scanned => by
    obtain ⟨opens, insideScanned⟩ := Token.scanned_inside parens scanned
    simp only [List.forall_mem_cons, List.forall_mem_append] at insideScanned
    obtain ⟨_, condScanned, yesScanned, noScanned⟩ := insideScanned
    have inside := (Reads.keyword .ifForm).cons ((reads_render condPart condScanned).cons
      ((reads_render yesPart yesScanned).cons (reads_render noPart noScanned).joined_single))
    refine inside.parensText.mono ?_
    rintro _ ⟨start, finish, _, ⟨_, ⟨pos, rfl⟩, _, ⟨first, ⟨cond, condSpells, condSame⟩, _,
      ⟨second, ⟨yes, yesSpells, yesSame⟩, third, ⟨no, noSpells, noSame⟩, rfl⟩, rfl⟩, rfl⟩, rfl⟩
    exact ⟨.branch _ cond yes no,
      @Spells.branch _ _ _ first second third _ _ _ ⟨rfl, rfl⟩ rfl condSpells yesSpells noSpells,
      by simp [retext, condSame, yesSame, noSame, opens]⟩
  | .letIn parens kind groupParens bindings bodyPart, scanned => by
    obtain ⟨opens, bindingsScanned, bodyScanned⟩ :=
      Token.scanned_group parens groupParens scanned
    refine (@reads_group .letForm _ _ _ (reads_renderBindings bindings bindingsScanned)
      (reads_render bodyPart bodyScanned)).mono ?_
    rintro _ ⟨start, finish, _, ⟨_, ⟨pos, rfl⟩, _, ⟨_, ⟨left, right, group,
      ⟨bound, boundSpells, boundSame⟩, rfl⟩, rest, ⟨body, bodySpells, bodySame⟩, rfl⟩, rfl⟩,
      rfl⟩
    exact ⟨.letIn _ bound body, .letIn ⟨rfl, rfl⟩ rfl ⟨rfl, rfl⟩ boundSpells bodySpells,
      by simp [retext, boundSame, bodySame, opens]⟩
  | .letrec parens kind groupParens bindings bodyPart, scanned => by
    obtain ⟨opens, bindingsScanned, bodyScanned⟩ :=
      Token.scanned_group parens groupParens scanned
    refine (@reads_group .letrec _ _ _ (reads_renderBindings bindings bindingsScanned)
      (reads_render bodyPart bodyScanned)).mono ?_
    rintro _ ⟨start, finish, _, ⟨_, ⟨pos, rfl⟩, _, ⟨_, ⟨left, right, group,
      ⟨bound, boundSpells, boundSame⟩, rfl⟩, rest, ⟨body, bodySpells, bodySame⟩, rfl⟩, rfl⟩,
      rfl⟩
    exact ⟨.letrec _ bound body, .letrec ⟨rfl, rfl⟩ rfl ⟨rfl, rfl⟩ boundSpells bodySpells,
      by simp [retext, boundSame, bodySame, opens]⟩
  | .lambda parens kind groupParens binders bodyPart, scanned => by
    obtain ⟨opens, paramsScanned, bodyScanned⟩ := Token.scanned_group parens groupParens scanned
    refine (@reads_group .lambda _ _ _ (reads_params binders paramsScanned)
      (reads_render bodyPart bodyScanned)).mono ?_
    rintro _ ⟨start, finish, _, ⟨_, ⟨pos, rfl⟩, _, ⟨_, ⟨left, right, group,
      ⟨params, paramsSpell, paramsSame⟩, rfl⟩, rest, ⟨body, bodySpells, bodySame⟩, rfl⟩, rfl⟩,
      rfl⟩
    exact ⟨.lambda _ params body, .lambda ⟨rfl, rfl⟩ rfl ⟨rfl, rfl⟩ paramsSpell bodySpells,
      by simp [retext, paramsSame, bodySame, opens]⟩
  | .call parens operatorPart parts, scanned => by
    obtain ⟨opens, insideScanned⟩ := Token.scanned_inside parens scanned
    obtain ⟨operatorScanned, partsScanned⟩ := List.forall_mem_append.mp insideScanned
    have inside := (reads_render operatorPart operatorScanned).cons
      (reads_renderAll parts partsScanned)
    refine inside.parensText.mono ?_
    rintro _ ⟨start, finish, _, ⟨first, ⟨operator, operatorSpells, operatorSame⟩, rest,
      ⟨args, argsSpell, argsSame⟩, rfl⟩, rfl⟩
    exact ⟨.call _ operator args, .call ⟨rfl, rfl⟩ operatorSpells argsSpell,
      by simp [retext, operatorSame, argsSame, opens]⟩
  | .list parens kind parts, scanned => by
    obtain ⟨opens, insideScanned⟩ := Token.scanned_inside parens scanned
    obtain ⟨_, partsScanned⟩ := List.forall_mem_cons.mp insideScanned
    have inside := (Reads.keyword .list).cons (reads_renderAll parts partsScanned)
    refine inside.parensText.mono ?_
    rintro _ ⟨start, finish, _, ⟨_, ⟨pos, rfl⟩, inside, ⟨es, spells, same⟩, rfl⟩, rfl⟩
    exact ⟨.list _ none es, .list ⟨rfl, rfl⟩ rfl spells, by simp [retext, same, opens]⟩
  | @Spells.typedList _ _ _ _ _ _ t _ parens kind colonKind type parts, scanned => by
    obtain ⟨opens, insideScanned⟩ := Token.scanned_inside parens scanned
    simp only [List.forall_mem_cons, List.forall_mem_append] at insideScanned
    obtain ⟨_, _, _, partsScanned⟩ := insideScanned
    have colon : Reads ":".toList (Token.single (.mark .colon) ":") := Reads.colon
    have inside := (Reads.keyword .list).cons (colon.cons ((t.reads_render type.isConcrete).cons
      (reads_renderAll parts partsScanned)))
    refine inside.parensText.mono ?_
    rintro _ ⟨start, finish, _, ⟨_, ⟨pos, rfl⟩, _, ⟨_, ⟨_, rfl⟩, _, ⟨first, typeSpells, rest,
      ⟨es, spells, same⟩, rfl⟩, rfl⟩, rfl⟩, rfl⟩
    exact ⟨.list _ (some t) es,
      @Spells.typedList _ _ _ _ first rest _ _ ⟨rfl, rfl⟩ rfl rfl typeSpells spells,
      by simp [retext, same, opens]⟩
  | .read parens kind, scanned => by
    obtain ⟨opens, _⟩ := Token.scanned_inside parens scanned
    refine (Reads.keyword .read).joined_single.parensText.mono ?_
    rintro _ ⟨start, finish, _, ⟨pos, rfl⟩, rfl⟩
    exact ⟨.read _, .read ⟨rfl, rfl⟩ rfl, by simp [retext, opens]⟩
  | .readFrom parens kind part, scanned => by
    obtain ⟨opens, insideScanned⟩ := Token.scanned_inside parens scanned
    obtain ⟨_, partScanned⟩ := List.forall_mem_cons.mp insideScanned
    have inside := (Reads.keyword .read).cons (reads_render part partScanned).joined_single
    refine inside.parensText.mono ?_
    rintro _ ⟨start, finish, _, ⟨_, ⟨pos, rfl⟩, inside, ⟨e, spells, same⟩, rfl⟩, rfl⟩
    exact ⟨.readFrom _ e, .readFrom ⟨rfl, rfl⟩ rfl spells, by simp [retext, same, opens]⟩

theorem reads_renderAll {tokens : List Token} {es : List Expr} :
    SpellAll tokens es → (∀ t ∈ tokens, t.Scanned) →
      Reads (Text.joined " " (renderAll es)).toList (respellingsAll es)
  | .nil, _ => by
    refine Reads.joined_nil.mono ?_
    rintro _ rfl
    exact ⟨[], .nil, rfl⟩
  | .cons head tail, scanned => by
    obtain ⟨headScanned, tailScanned⟩ := List.forall_mem_append.mp scanned
    refine ((reads_render head headScanned).cons (reads_renderAll tail tailScanned)).mono ?_
    rintro _ ⟨first, ⟨e', firstSpells, firstSame⟩, rest, ⟨es', restSpell, restSame⟩, rfl⟩
    exact ⟨e' :: es', .cons firstSpells restSpell,
      by rw [retextAll, retextAll, firstSame, restSame]⟩

theorem reads_binding {form : BindingForm} {tokens : List Token} {bound : Binder × Expr} :
    SpellsBinding form tokens bound → (∀ t ∈ tokens, t.Scanned) →
      Reads (Text.joined " " [bound.1.render, bound.2.render]).toList
        (respellingsBinding form bound)
  | @SpellsBinding.plain _ name _ _ optional nameKind part, scanned => by
    obtain ⟨nameScanned, partScanned⟩ := List.forall_mem_cons.mp scanned
    have word := nameScanned.reads nameKind (by simp) (by simp) (by simp)
    refine (word.cons (reads_render part partScanned).joined_single).mono ?_
    rintro _ ⟨_, ⟨pos, rfl⟩, inside, ⟨value, spells, same⟩, rfl⟩
    exact ⟨⟨⟨.ident, name.literal, pos⟩, name.literal, none⟩, value, .plain optional rfl spells,
      by simp [Binder.unplaced, Token.unplaced_of_kind nameKind], same⟩
  | @SpellsBinding.typed _ name _ _ _ t _ nameKind colonKind type part, scanned => by
    simp only [List.forall_mem_cons, List.forall_mem_append] at scanned
    obtain ⟨nameScanned, _, _, partScanned⟩ := scanned
    have typed := reads_typedName nameScanned nameKind type
    refine (typed.cons (reads_render part partScanned).joined_single).mono ?_
    rintro _ ⟨_, ⟨_, ⟨pos, rfl⟩, _, ⟨_, ⟨_, rfl⟩, first, typeSpells, rfl⟩, rfl⟩, rest,
      ⟨value, spells, same⟩, rfl⟩
    exact ⟨⟨⟨.ident, name.literal, pos⟩, name.literal, some t⟩, value,
      .typed rfl rfl typeSpells spells,
      by simp [Binder.unplaced, Token.unplaced_of_kind nameKind], same⟩

theorem reads_renderBindings {form : BindingForm} {tokens : List Token}
    {bound : List (Binder × Expr)} :
    SpellBindings form tokens bound → (∀ t ∈ tokens, t.Scanned) →
      Reads (Text.joined " " (renderBindings bound)).toList (respellingsBindings form bound)
  | .nil, _ => by
    refine Reads.joined_nil.mono ?_
    rintro _ rfl
    exact ⟨[], .nil, rfl⟩
  | .cons parens head tail, scanned => by
    obtain ⟨bindingScanned, tailScanned⟩ := List.forall_mem_append.mp scanned
    obtain ⟨_, headScanned⟩ := Token.scanned_inside parens bindingScanned
    have first := (reads_binding head headScanned).parensText
    refine (first.cons (reads_renderBindings tail tailScanned)).mono ?_
    rintro _ ⟨_, ⟨start, finish, inside, ⟨binder, value, spells, named, same⟩, rfl⟩, rest,
      ⟨bound, restSpell, restSame⟩, rfl⟩
    exact ⟨(binder, value) :: bound, .cons ⟨rfl, rfl⟩ spells restSpell,
      by rw [retextBindings, retextBindings, named, same, restSame]⟩

end

end Expr

end TypedForms
