import TypedForms.Proofs.Config.Document
import TypedForms.Proofs.Options
import TypedForms.Proofs.Ty.RoundTrip

/-! Options and the configurations that stand for them. A configuration gives only options that are
fit to be used, so their last check never fails; and options that a configuration can give are got
back from theirs, also by way of its text. -/
namespace TypedForms

/-! Texts of types and policies can be written without quotes. -/

namespace Yaml

variable {parts : List String}

theorem all_isInner_joined (each : ∀ part ∈ parts, part.toList.all isInner = true) :
    (Text.joined " " parts).toList.all isInner = true := by
  induction parts with
  | nil => rfl
  | cons first parts ih =>
    obtain ⟨head, tail⟩ := List.forall_mem_cons.mp each
    cases parts with
    | nil => exact head
    | cons second parts =>
      rw [Text.joined_cons_cons, String.toList_append, String.toList_append, List.all_append,
        List.all_append, head, ih tail]
      rfl

theorem IsPlainText.parens (each : ∀ part ∈ parts, part.toList.all isInner = true) :
    IsPlainText (Text.parens parts) := by
  have chars : (Text.parens parts).toList = '(' :: ((Text.joined " " parts).toList ++ [')']) := by
    rw [Text.parens, String.toList_append, String.toList_append]
    rfl
  refine ⟨⟨List.all_eq_true.mp ?_, ⟨'(', by rw [chars]; rfl, rfl⟩, ?_⟩, ?_⟩
  · rw [chars, List.all_cons, List.all_append, all_isInner_joined each]
    rfl
  · rw [chars, ← List.cons_append, List.getLast?_concat]
    rintro _ ⟨⟩
    decide
  · intro member
    have head : ∀ word ∈ valueWords, word.toList.head? ≠ some '(' := by decide
    exact head _ member (by rw [chars]; rfl)

theorem IsPlainText.all_isInner {text : String} (plain : IsPlainText text) :
    text.toList.all isInner = true :=
  List.all_eq_true.mpr plain.isPlain.inner

end Yaml

namespace Ty

open Yaml (IsPlainText isInner)

theorem renderAll_eq_map {ts : List Ty} : renderAll ts = ts.map render := by
  induction ts with
  | nil => rfl
  | cons t ts ih => rw [renderAll, ih, List.map_cons]

theorem isPlainText_render (t : Ty) (concrete : t.isConcrete = true) : IsPlainText t.render := by
  induction t using Ty.induction with
  | unresolved | error => cases concrete
  | num | str | bool | unit => exact ⟨by decide, by decide⟩
  | func params result ihParams ihResult =>
    obtain ⟨paramsConcrete, resultConcrete⟩ := isConcrete_func.mp concrete
    refine .parens (List.forall_mem_append.mpr ⟨?_, ?_⟩)
    · rw [renderAll_eq_map, List.forall_mem_map]
      intro t member
      exact (ihParams t member (paramsConcrete t member)).all_isInner
    · have last := (ihResult resultConcrete).all_isInner
      exact List.forall_mem_cons.mpr ⟨by decide, List.forall_mem_singleton.mpr last⟩
  | pair left right ihLeft ihRight =>
    obtain ⟨leftConcrete, rightConcrete⟩ := isConcrete_pair.mp concrete
    have first := (ihLeft leftConcrete).all_isInner
    have second := (ihRight rightConcrete).all_isInner
    refine .parens (List.forall_mem_cons.mpr ⟨by decide, List.forall_mem_cons.mpr ⟨first, ?_⟩⟩)
    exact List.forall_mem_singleton.mpr second
  | list elem ih =>
    have inner := (ih (isConcrete_list.mp concrete)).all_isInner
    exact .parens (List.forall_mem_cons.mpr ⟨by decide, List.forall_mem_singleton.mpr inner⟩)
  | ref elem ih =>
    have inner := (ih (isConcrete_ref.mp concrete)).all_isInner
    exact .parens (List.forall_mem_cons.mpr ⟨by decide, List.forall_mem_singleton.mpr inner⟩)

end Ty

/-! Options that a configuration can give. -/

/-- Evaluation is rejected or allowed, and both types are set and without placeholders. -/
structure Options.Configurable (o : Options) : Prop where
  policy : o.eval = .reject ∨ o.eval = .dynamic
  readType : ∃ t, o.readType = some t ∧ t.contains .error = false ∧ t.contains .unresolved = false
  evalType : ∃ t, o.evalType = some t ∧ t.contains .error = false ∧ t.contains .unresolved = false

theorem Options.Configurable.problem?_eq_none {o : Options} (configurable : o.Configurable) :
    o.problem? = none := by
  obtain ⟨_, ⟨readType, read, readConcrete⟩, evalType, eval, evalConcrete⟩ := configurable
  refine Options.problem?_eq_none_iff.mpr ⟨readType, read, Ty.isConcrete_iff.mpr readConcrete, ?_⟩
  intro _
  exact ⟨evalType, eval, Ty.isConcrete_iff.mpr evalConcrete⟩

theorem EvalPolicy.of_ofName? {name : String} {policy : EvalPolicy}
    (known : ofName? name = some policy) : policy = .reject ∨ policy = .dynamic := by
  unfold ofName? at known
  split at known <;> cases known <;> simp

namespace Config

variable {field : String} {o : Options}

/-- A field holds a type without placeholders, or else what is wrong with its text is told. -/
theorem typeOf_cases (field text : String) :
    (∃ error, typeOf field text (some .str) = .error (.badType field error)) ∨
      ∃ t, typeOf field text (some .str) = .ok (some t) ∧ t.isConcrete = true := by
  unfold typeOf
  split
  · exact .inr ⟨.str, rfl, rfl⟩
  · dsimp only
    split
    next clean =>
      have spells := Ty.ofStream_eq_pure_iff.mp (Diagnosed.eq_pure_iff.mpr ⟨clean, rfl⟩)
      exact .inr ⟨_, rfl, spells.isConcrete⟩
    next error _ _ => exact .inl ⟨error, rfl⟩

theorem typeOf_render {t : Ty} {standard : Option Ty} (concrete : t.isConcrete = true) :
    typeOf field t.render standard = .ok (some t) := by
  have nonempty : t.render ≠ "" := by
    intro empty
    have plain := (t.isPlainText_render concrete).isPlain
    rw [empty] at plain
    obtain ⟨_, ⟨⟩, _⟩ := plain.starts
  rw [typeOf, Ty.ofSource_render t concrete]
  simp [nonempty]

theorem options_of_fields {c : Config} {readType evalType : Option Ty} {policy : EvalPolicy}
    (read : typeOf "read_type" c.readType (some .str) = .ok readType)
    (named : EvalPolicy.ofName? (String.ofList (Text.trim c.policy.toList)) = some policy)
    (eval : typeOf "eval.result_type" c.resultType (some .str) = .ok evalType)
    (valid : Options.problem? ⟨readType, policy, evalType⟩ = none) :
    c.options = .ok ⟨readType, policy, evalType⟩ := by
  simp [options, Options.standard, read, named, eval, valid, bind, Except.bind]

/-- What a configuration can give. Options from fields that can be read have no problem left. -/
theorem options_cases (c : Config) :
    (∃ field error, c.options = .error (.badType field error)) ∨
      (∃ name, c.options = .error (.unknownPolicy name)) ∨
      ∃ o, c.options = .ok o ∧ o.Configurable := by
  rcases typeOf_cases "read_type" c.readType with ⟨error, bad⟩ | ⟨readType, read, readConcrete⟩
  · refine .inl ⟨"read_type", error, ?_⟩
    simp [options, Options.standard, bad, bind, Except.bind]
  cases named : EvalPolicy.ofName? (String.ofList (Text.trim c.policy.toList)) with
  | none =>
    refine .inr (.inl ⟨String.ofList (Text.trim c.policy.toList), ?_⟩)
    simp [options, Options.standard, read, named, bind, Except.bind]
  | some policy =>
    rcases typeOf_cases "eval.result_type" c.resultType with
      ⟨error, bad⟩ | ⟨evalType, eval, evalConcrete⟩
    · refine .inl ⟨"eval.result_type", error, ?_⟩
      simp [options, Options.standard, read, named, bad, bind, Except.bind]
    · have configurable : Options.Configurable ⟨some readType, policy, some evalType⟩ :=
        ⟨EvalPolicy.of_ofName? named, ⟨readType, rfl, Ty.isConcrete_iff.mp readConcrete⟩,
          ⟨evalType, rfl, Ty.isConcrete_iff.mp evalConcrete⟩⟩
      have given := options_of_fields read named eval configurable.problem?_eq_none
      exact .inr (.inr ⟨_, given, configurable⟩)

theorem options_ofOptions (configurable : o.Configurable) : (ofOptions o).options = .ok o := by
  have valid := configurable.problem?_eq_none
  obtain ⟨readType, eval, evalType⟩ := o
  obtain ⟨policy, ⟨t, rfl, tConcrete⟩, u, rfl, uConcrete⟩ := configurable
  have named : EvalPolicy.ofName? (String.ofList (Text.trim eval.name.toList)) = some eval := by
    dsimp only at policy
    rcases policy with rfl | rfl <;> decide
  exact options_of_fields (typeOf_render (Ty.isConcrete_iff.mpr tConcrete)) named
    (typeOf_render (Ty.isConcrete_iff.mpr uConcrete)) valid

theorem fits_ofOptions (configurable : o.Configurable) : (ofOptions o).Fits := by
  obtain ⟨readType, eval, evalType⟩ := o
  obtain ⟨policy, ⟨t, rfl, tConcrete⟩, u, rfl, uConcrete⟩ := configurable
  have plain : Yaml.IsPlainText eval.name := by
    dsimp only at policy
    rcases policy with rfl | rfl <;> exact ⟨by decide, by decide⟩
  exact ⟨t.isPlainText_render (Ty.isConcrete_iff.mpr tConcrete), plain,
    u.isPlainText_render (Ty.isConcrete_iff.mpr uConcrete)⟩

theorem decodeBytes_bytes (text : String) : decodeBytes (Text.Utf8.bytes text) = decode text := by
  have valid : Text.Utf8.isText (Text.Utf8.bytes text) = true := by
    simp [Text.Utf8.isText, Text.Utf8.toByteArray_bytes, text.isValidUTF8]
  rw [decodeBytes, valid, if_pos rfl, Text.Utf8.text_bytes]

/-- Options survive their configuration. Those that one gives pass their check and have types
without placeholders, so the check never is what refuses it. And all such options, with types of any
depth, are got back from the configuration that stands for them and from the bytes of its text. -/
theorem options_survive_configuration :
    (∀ (c : Config) (o : Options), c.options = .ok o → o.problem? = none ∧ o.Configurable) ∧
    (∀ (c : Config) (problem : Options.Problem), c.options ≠ .error (.unfit problem)) ∧
    ∀ o : Options, o.Configurable →
      (ofOptions o).options = .ok o ∧
      decodeBytes (Text.Utf8.bytes (ofOptions o).write) = .ok o := by
  refine ⟨?_, ?_, ?_⟩
  · intro c o given
    obtain ⟨_, _, bad⟩ | ⟨_, unnamed⟩ | ⟨o', given', configurable⟩ := c.options_cases
    · cases given.symm.trans bad
    · cases given.symm.trans unnamed
    · cases given.symm.trans given'
      exact ⟨configurable.problem?_eq_none, configurable⟩
  · intro c problem unfit
    obtain ⟨_, _, bad⟩ | ⟨_, unnamed⟩ | ⟨_, given, _⟩ := c.options_cases
    · cases unfit.symm.trans bad
    · cases unfit.symm.trans unnamed
    · cases unfit.symm.trans given
  · intro o configurable
    have given := options_ofOptions configurable
    refine ⟨given, ?_⟩
    rw [decodeBytes_bytes, (fits_ofOptions configurable).decode_write, given]
    rfl

/-- Options with a function that takes nothing, and with types inside of types. -/
def nestedOptions : Options :=
  ⟨some (.func [] (.list (.pair .num (.func [.unit] .bool)))), .dynamic,
    some (.func [.func [] .str, .list (.list .num)] (.ref .unit))⟩

theorem nestedOptions_survive :
    nestedOptions.Configurable ∧ nestedOptions.problem? = none ∧
      (ofOptions nestedOptions).options = .ok nestedOptions ∧
      decodeBytes (Text.Utf8.bytes (ofOptions nestedOptions).write) = .ok nestedOptions := by
  have configurable : nestedOptions.Configurable :=
    ⟨.inr rfl, ⟨_, rfl, by decide, by decide⟩, ⟨_, rfl, by decide, by decide⟩⟩
  obtain ⟨sound, _, survives⟩ := options_survive_configuration
  obtain ⟨given, decoded⟩ := survives nestedOptions configurable
  exact ⟨configurable, (sound _ _ given).1, given, decoded⟩

end Config

end TypedForms
