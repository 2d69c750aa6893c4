import TypedForms.Proofs.Ty.Grammar
import TypedForms.Proofs.Ty.Render

/-! Printed types. A type without placeholders is read back from its text. The text of any other
type is not read without a note: the first placeholder in it is scanned as a word that no type is
spelled with, and nothing that follows it, be it the message of an error, can undo that. -/
namespace TypedForms

namespace Scanner

open Token (isSymbolChar)

variable {s : Scanner} {c : Char} {token : Token} {tokens : List Token} {text text' : List Char}
  {language : Language Token} {holds : Token → Prop}

/-! Finished tokens stay. -/

theorem mem_tokens_stepGap {pos : Position} (member : token ∈ tokens) :
    token ∈ (stepGap c pos tokens).tokens := by
  unfold stepGap
  dsimp only
  repeat' split
  all_goals simp [member]

theorem mem_tokens_step (member : token ∈ s.tokens) : token ∈ (s.step c).tokens := by
  unfold step
  dsimp only
  split
  · exact mem_tokens_stepGap member
  · exact member
  · split
    · exact member
    · exact mem_tokens_stepGap (List.mem_cons_of_mem _ member)
  · split
    · exact List.mem_cons_of_mem _ member
    · split <;> exact member
  · exact member

theorem mem_finish_of_mem_tokens (member : token ∈ s.tokens) :
    token ∈ (text.foldl step s).finish := by
  induction text generalizing s with
  | nil =>
    rw [List.foldl_nil, finish]
    split <;> simp [member]
  | cons c text ih => exact ih (mem_tokens_step member)

/-- From between two tokens, the text is read with such a token in it, whatever comes after the text
as long as it is no part of the last word. -/
def Reveals (holds : Token → Prop) (text : List Char) : Prop :=
  ∀ pos tokens after, (∀ c ∈ after.head?, isSymbolChar c = false) →
    ∃ token ∈ ((text ++ after).foldl step ⟨.gap, pos, tokens⟩).finish, holds token

namespace Reveals

theorem word (nonempty : text ≠ []) (chars : ∀ c ∈ text, isSymbolChar c = true)
    (found : ∀ pos, holds ⟨Token.symbolKind text, String.ofList text, pos⟩) :
    Reveals holds text := by
  intro pos tokens after apart
  obtain ⟨c, text, rfl⟩ := List.exists_cons_of_ne_nil nonempty
  obtain ⟨first, rest⟩ := List.forall_mem_cons.mp chars
  obtain ⟨last, read⟩ := @Reads.foldl_symbol (pos.advance c) tokens text pos [c] rest
  refine ⟨_, ?_, found pos⟩
  have whole : symbolToken pos (text.reverse ++ [c]) =
      ⟨Token.symbolKind (c :: text), String.ofList (c :: text), pos⟩ := by
    simp [symbolToken]
  rw [List.foldl_append, List.foldl_cons, step_gap_of_symbol first, read, ← whole]
  cases after with
  | nil => simp [finish]
  | cons next after =>
    have ends : isSymbolChar next = false := apart next rfl
    rw [List.foldl_cons]
    refine mem_finish_of_mem_tokens ?_
    simp only [step, ends]
    exact mem_tokens_stepGap List.mem_cons_self

/-- What follows a text does not hide what is in it. -/
theorem append (reveals : Reveals holds text) (apart : isSymbolChar c = false) :
    Reveals holds (text ++ c :: text') := by
  intro pos tokens after _
  rw [List.append_assoc]
  exact reveals pos tokens _ (by simpa using apart)

/-- Nor does what comes before, if it is read as whole tokens. -/
theorem after (reads : Reads text language) (reveals : Reveals holds text') :
    Reveals holds (text ++ ' ' :: text') := by
  intro pos tokens after apart
  obtain ⟨settled, _⟩ := reads pos tokens
  set middle := text.foldl step ⟨.gap, pos, tokens⟩ with middleEq
  have stepped : middle.step ' ' = ⟨.gap, middle.pos.advance ' ', middle.finish.reverse⟩ := by
    rw [step_of_settled settled rfl]
    rfl
  rw [List.append_assoc, List.foldl_append, ← middleEq, List.cons_append, List.foldl_cons, stepped]
  exact reveals _ _ after apart

theorem parens (reveals : Reveals holds text) : Reveals holds ('(' :: (text ++ [')'])) := by
  intro pos tokens after _
  have opened : step ⟨.gap, pos, tokens⟩ '(' =
      ⟨.gap, pos.advance '(', ⟨.mark .lparen, "(", pos⟩ :: tokens⟩ := rfl
  rw [List.cons_append, List.foldl_cons, opened, List.append_assoc]
  exact reveals _ _ _ (by simp [isSymbolChar])

theorem spelled {word : String} {kind : Token.Kind} (nonempty : word.toList ≠ [])
    (chars : word.toList.all isSymbolChar = true) (same : Token.symbolKind word.toList = kind)
    (found : ∀ pos, holds ⟨kind, word, pos⟩) : Reveals holds word.toList := by
  refine Reveals.word nonempty (List.all_eq_true.mp chars) fun pos => ?_
  rw [same, String.ofList_toList]
  exact found pos

/-! Texts of forms. -/

theorem head {first : String} {parts : List String} (reveals : Reveals holds first.toList) :
    Reveals holds (Text.joined " " (first :: parts)).toList := by
  cases parts with
  | nil => exact reveals
  | cons second parts =>
    rw [Text.joined_cons_cons, String.toList_append, String.toList_append, List.append_assoc]
    exact reveals.append rfl

theorem tail {first : String} {parts : List String} (reads : Reads first.toList language)
    (reveals : Reveals holds (Text.joined " " parts).toList) :
    Reveals holds (Text.joined " " (first :: parts)).toList := by
  cases parts with
  | nil =>
    obtain ⟨token, member, _⟩ := reveals (.start "") [] [] nofun
    exact absurd member List.not_mem_nil
  | cons second parts =>
    rw [Text.joined_cons_cons, String.toList_append, String.toList_append, List.append_assoc]
    exact reveals.after reads

theorem parensText {parts : List String}
    (reveals : Reveals holds (Text.joined " " parts).toList) :
    Reveals holds (Text.parens parts).toList := by
  rw [Text.parens, String.toList_append, String.toList_append, List.append_assoc]
  exact reveals.parens

end Reveals

end Scanner

/-- A word that stands for a placeholder in the text of a type. -/
def Token.IsPlaceholder (token : Token) : Prop :=
  token.kind = .ident ∧ (token.literal = "?" ∨ token.literal = "error")

namespace Ty

open Scanner (Reads Reveals)

variable {t : Ty} {ts : List Ty} {tokens : List Token}

/-! No type is spelled with a placeholder. -/

theorem Named.literal_ne {name : String} (named : Named name t) :
    name ≠ "?" ∧ name ≠ "error" := by
  cases named <;> decide

/-- Tokens other than names are no placeholders. -/
theorem not_isPlaceholder_of_kind {token : Token} {kind : Token.Kind} (same : token.kind = kind)
    (other : kind ≠ .ident) : ¬ token.IsPlaceholder := by
  rintro ⟨ident, _⟩
  exact other (same.symm.trans ident)

theorem not_isPlaceholder_enclose {opening closing : Token} {inside : List Token}
    (parens : Token.Parens opening closing) (inner : ∀ token ∈ inside, ¬ token.IsPlaceholder) :
    ∀ token ∈ opening.enclose inside closing, ¬ token.IsPlaceholder := by
  refine List.forall_mem_cons.mpr ⟨not_isPlaceholder_of_kind parens.opens (by decide), ?_⟩
  refine List.forall_mem_append.mpr ⟨inner, List.forall_mem_singleton.mpr ?_⟩
  exact not_isPlaceholder_of_kind parens.closes (by decide)

mutual

theorem Spells.not_isPlaceholder {tokens : List Token} {t : Ty} :
    Spells tokens t → ∀ token ∈ tokens, ¬ token.IsPlaceholder
  | .unit kind => List.forall_mem_singleton.mpr (not_isPlaceholder_of_kind kind (by decide))
  | .name _ named => by
    refine List.forall_mem_singleton.mpr ?_
    rintro ⟨_, literal | literal⟩
    · exact named.literal_ne.1 literal
    · exact named.literal_ne.2 literal
  | .func parens before kind after => by
    refine not_isPlaceholder_enclose parens
      (List.forall_mem_append.mpr ⟨before.not_isPlaceholder, ?_⟩)
    exact List.forall_mem_cons.mpr
      ⟨not_isPlaceholder_of_kind kind (by decide), after.not_isPlaceholder⟩
  | .pair parens _ literal left right => by
    refine not_isPlaceholder_enclose parens (List.forall_mem_cons.mpr ⟨?_, ?_⟩)
    · rintro ⟨_, other | other⟩ <;> simp [literal] at other
    · exact List.forall_mem_append.mpr ⟨left.not_isPlaceholder, right.not_isPlaceholder⟩
  | .list parens kind elem => not_isPlaceholder_enclose parens (List.forall_mem_cons.mpr
      ⟨not_isPlaceholder_of_kind kind (by decide), elem.not_isPlaceholder⟩)
  | .ref parens kind elem => not_isPlaceholder_enclose parens (List.forall_mem_cons.mpr
      ⟨not_isPlaceholder_of_kind kind (by decide), elem.not_isPlaceholder⟩)

theorem SpellAll.not_isPlaceholder {tokens : List Token} {ts : List Ty} :
    SpellAll tokens ts → ∀ token ∈ tokens, ¬ token.IsPlaceholder
  | .nil => nofun
  | .cons head tail => List.forall_mem_append.mpr ⟨head.not_isPlaceholder, tail.not_isPlaceholder⟩

end

/-! The text of a type with a placeholder shows it. -/

theorem reveals_renderAll {parts : List String}
    (each : ∀ t ∈ ts, t.isConcrete = false → Reveals Token.IsPlaceholder t.render.toList)
    (abstract : (∃ t ∈ ts, t.isConcrete = false) ∨
      Reveals Token.IsPlaceholder (Text.joined " " parts).toList) :
    Reveals Token.IsPlaceholder (Text.joined " " (renderAll ts ++ parts)).toList := by
  induction ts with
  | nil => exact abstract.resolve_left (by simp)
  | cons t ts ih =>
    obtain ⟨first, others⟩ := List.forall_mem_cons.mp each
    cases concrete : t.isConcrete with
    | false => exact (first concrete).head
    | true =>
      refine .tail (t.reads_render concrete) (ih others ?_)
      simpa [concrete] using abstract

theorem reveals_render (t : Ty) (abstract : t.isConcrete = false) :
    Reveals Token.IsPlaceholder t.render.toList := by
  induction t using Ty.induction with
  | num | str | bool | unit => cases abstract
  | unresolved => exact .spelled (by decide) (by decide) rfl fun _ => ⟨rfl, .inl rfl⟩
  | error message =>
    have name : Reveals Token.IsPlaceholder "error".toList :=
      .spelled (by decide) (by decide) rfl fun _ => ⟨rfl, .inr rfl⟩
    rw [render]
    split
    · exact name
    · rw [String.toList_append]
      exact name.append (c := ':') rfl
  | func params result ihParams ihResult =>
    have arrow : Reads "->".toList (Token.single (.mark .arrow) "->") :=
      .spelled (by decide) (by decide) rfl
    refine (reveals_renderAll ihParams ?_).parensText
    rw [← Bool.not_eq_true, isConcrete_func, not_and_or] at abstract
    rcases abstract with someParam | resultAbstract
    · exact .inl (by simpa using someParam)
    · exact .inr (.tail arrow (ihResult (by simpa using resultAbstract)).head)
  | pair left right ihLeft ihRight =>
    have head : Reads "pair".toList (Token.single .ident "pair") :=
      .spelled (by decide) (by decide) rfl
    refine Reveals.parensText (.tail head ?_)
    cases leftConcrete : left.isConcrete with
    | false => exact (ihLeft leftConcrete).head
    | true =>
      have rightAbstract : right.isConcrete = false := by
        rw [← Bool.not_eq_true, isConcrete_pair] at abstract
        simpa [leftConcrete] using abstract
      exact .tail (left.reads_render leftConcrete) (ihRight rightAbstract).head
  | list elem ih =>
    rw [← Bool.not_eq_true, isConcrete_list, Bool.not_eq_true] at abstract
    exact Reveals.parensText (.tail (.keyword .list) (ih abstract).head)
  | ref elem ih =>
    rw [← Bool.not_eq_true, isConcrete_ref, Bool.not_eq_true] at abstract
    exact Reveals.parensText (.tail (.keyword .ref) (ih abstract).head)

/-! Reading a source that is one type. -/

/-- A source is read as a type without a note exactly if its tokens spell that type. -/
theorem ofStream_eq_pure_iff {stream : TokenStream} :
    ofStream stream = pure t ↔ Spells stream.tokens t := by
  constructor
  · intro clean
    unfold ofStream at clean
    split at clean
    next => exact absurd clean Diagnosed.note_bind_ne_pure
    next => exact absurd clean Diagnosed.note_bind_ne_pure
    next d unclosed rest items =>
      simp only [Diagnosed.bind_eq_pure_iff] at clean
      obtain ⟨_, closed, u, read, last⟩ := clean
      obtain rfl := Diagnosed.eq_nil_of_sequence_note closed
      cases rest with
      | cons item rest => exact absurd last Diagnosed.note_bind_ne_pure
      | nil =>
        obtain rfl := Diagnosed.pure_inj.mp last
        have spells : Datum.SpellAll stream.tokens [d] := Item.ofTokens_eq_forms_iff.mp items
        exact spells_of_clean (Datum.SpellAll.single_iff.mp spells) read
  · intro spells
    obtain ⟨d, data, read⟩ := exists_datum spells
    have items : Item.ofTokens stream.tokens = [.form d []] :=
      Item.ofTokens_eq_forms_iff.mpr (Datum.SpellAll.single_iff.mpr data)
    simp [ofStream, items, read, Diagnosed.sequence]

theorem ofSource_render (t : Ty) (concrete : t.isConcrete = true) :
    ofSource t.render = pure t := by
  obtain ⟨_, new, spells, finish⟩ := t.reads_render concrete (.start "") []
  have tokensEq : (TokenStream.ofSource "" t.render).tokens = new := finish
  rw [ofSource, ofStream_eq_pure_iff, tokensEq]
  exact spells

theorem notes_ofSource_render_ne_nil (t : Ty) (abstract : t.isConcrete = false) :
    (ofSource t.render).notes ≠ [] := by
  intro accepted
  have spells := ofStream_eq_pure_iff.mp (Diagnosed.eq_pure_iff.mpr ⟨accepted, rfl⟩)
  obtain ⟨token, member, placeholder⟩ := t.reveals_render abstract (.start "") [] [] nofun
  rw [List.append_nil] at member
  exact spells.not_isPlaceholder token member placeholder

/-- The text of a type is read without a note exactly if there is no placeholder in the type, at any
depth and whatever the messages of errors are, and it is then read as the type itself. -/
theorem reads_back_iff_concrete (t : Ty) :
    ((ofSource t.render).notes = [] ↔
      t.contains .error = false ∧ t.contains .unresolved = false) ∧
    (t.contains .error = false ∧ t.contains .unresolved = false →
      (ofSource t.render).value = t) := by
  rw [← isConcrete_iff]
  cases concrete : t.isConcrete with
  | true => simp [ofSource_render t concrete]
  | false => simp [notes_ofSource_render_ne_nil t concrete]

end Ty

end TypedForms
