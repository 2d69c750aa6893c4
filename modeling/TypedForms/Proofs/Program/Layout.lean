import TypedForms.Proofs.Check.Moved
import TypedForms.Proofs.Program.Complete
import TypedForms.Proofs.Program.Moved
import TypedForms.Proofs.Program.RoundTrip

/-! The layout of a source. A program is read and checked alike wherever its tokens stand. Two
things follow. Sources with the same tokens mean the same, however they are laid out; and no
diagnostic is anchored outside of its source, because it would then stay in its place when all that
is not in the source is put elsewhere. -/
namespace TypedForms

open Diagnosed (Moves)

/-! Places left out. -/

namespace Expr

variable {f : Token → Position} {g : String → String}

theorem retextAll_put {es : List Expr} (each : ∀ e ∈ es, (e.put f).retext g = e.retext g) :
    retextAll g (putAll f es) = retextAll g es := by
  induction es with
  | nil => rfl
  | cons e es ih =>
    obtain ⟨first, rest⟩ := List.forall_mem_cons.mp each
    rw [putAll, retextAll, first, ih rest, retextAll]

theorem retextBindings_put {bound : List (Binder × Expr)}
    (each : ∀ binding ∈ bound, (binding.2.put f).retext g = binding.2.retext g) :
    retextBindings g (putBindings f bound) = retextBindings g bound := by
  induction bound with
  | nil => rfl
  | cons binding bound ih =>
    obtain ⟨first, rest⟩ := List.forall_mem_cons.mp each
    obtain ⟨binder, value⟩ := binding
    rw [putBindings, retextBindings, first, ih rest, retextBindings]
    rfl

/-- With its places left out, an expression is the same wherever its tokens stand. -/
theorem retext_put (e : Expr) : (e.put f).retext g = e.retext g := by
  induction e using Expr.induction with
  | absent | number | string | bool | unit | broken | var | read => rfl
  | add token operands ih | list token elem operands ih =>
    simp only [put, retext, retextAll_put ih]
    rfl
  | binary token op left right ihLeft ihRight =>
    simp only [put, retext, ihLeft, ihRight]
    rfl
  | unary token op operand ih | readFrom token operand ih =>
    simp only [put, retext, ih]
    rfl
  | branch token cond yes no ihCond ihYes ihNo =>
    simp only [put, retext, ihCond, ihYes, ihNo]
    rfl
  | letIn token bound body ihBound ihBody | letrec token bound body ihBound ihBody =>
    simp only [put, retext, retextBindings_put ihBound, ihBody]
    rfl
  | lambda token params body ih =>
    simp only [put, retext, ih, List.map_map]
    rfl
  | call token operator args ihOperator ihArgs =>
    simp only [put, retext, ihOperator, retextAll_put ihArgs]
    rfl

end Expr

theorem Program.unplaced_put {f : Token → Position} {p : Program} :
    (p.put f).unplaced = p.unplaced := by
  have decls : Decl.retext id ∘ Decl.put f = Decl.retext id := by
    funext d
    simp only [Function.comp_apply, Decl.put, Decl.retext, Expr.retext_put]
    rfl
  simp only [unplaced, retext, put, Expr.retext_put, List.map_map, decls]

/-! Programs, read and checked. -/

/-- The stream with its tokens where `f` puts them. -/
def TokenStream.put (f : Token → Position) (stream : TokenStream) : TokenStream :=
  ⟨stream.tokens.map (Token.put f), stream.finish.put f⟩

variable {f : Token → Position}

theorem Form.moves_noteExtra {form : Form} (whole : form.gaps = []) :
    Moves f id (noteExtra form) (noteExtra (form.put f)) := by
  cases form with
  | define d => exact .note rfl
  | expr e => exact .note (Expr.token_put (Expr.gapless_of_gaps whole))

namespace Program

theorem moves_ofForms {finish : Token} {forms : List Form}
    (whole : ∀ form ∈ forms, form.gaps = []) :
    Moves f (put f) (ofForms finish forms) (ofForms (finish.put f) (forms.map (Form.put f))) := by
  induction forms with
  | nil => exact .noteThen (.pure rfl)
  | cons form forms ih =>
    obtain ⟨-, rest⟩ := List.forall_mem_cons.mp whole
    cases form with
    | define d => exact (ih rest).bind (.pure rfl)
    | expr e =>
      have extra : List.Forall₂ (Moves f id) (forms.map Form.noteExtra)
          ((forms.map (Form.put f)).map Form.noteExtra) := by
        rw [List.map_map, List.forall₂_map_left_iff, List.forall₂_map_right_iff]
        exact List.forall₂_same.mpr fun form member => Form.moves_noteExtra (rest form member)
      exact (Moves.sequence extra).bind (.pure rfl)

theorem moves_ofStream {stream : TokenStream} :
    Moves f (put f) (ofStream stream) (ofStream (stream.put f)) :=
  Form.moves_ofStream.bind (moves_ofForms Form.gaps_ofItems)

/-- No expression is absent from what a source is read as. -/
theorem gapless_ofStream {stream : TokenStream} :
    (∀ d ∈ (ofStream stream).value.decls, d.value.Gapless) ∧
      (ofStream stream).value.result.Gapless := by
  obtain ⟨decls, result⟩ := @gaps_ofStream stream
  constructor
  · intro d member
    exact Expr.gapless_of_gaps (decls d member)
  · exact Expr.gapless_of_gaps result

end Program

namespace Check

variable {o : Options} {env : Env Ty}

theorem moves_decls {ds : List Decl} (gapless : ∀ d ∈ ds, d.value.Gapless) :
    Moves f id (decls o env ds) (decls o env (ds.map (Decl.put f))) := by
  induction ds generalizing env with
  | nil => exact .pure rfl
  | cons d ds ih =>
    obtain ⟨first, rest⟩ := List.forall_mem_cons.mp gapless
    exact (moves_decl first).bind (ih rest)

theorem moves_program {p : Program} (decls : ∀ d ∈ p.decls, d.value.Gapless)
    (result : p.result.Gapless) : Moves f id (program o env p) (program o env (p.put f)) :=
  (moves_decls decls).bind ((moves_expr _ result _).bind (.pure rfl))

/-- The check of what a source is read as. -/
theorem moves_ofStream {stream : TokenStream} :
    Moves f id (program o env (Program.ofStream stream).value)
      (program o env (Program.ofStream (stream.put f)).value) := by
  rw [Program.moves_ofStream.value]
  exact moves_program Program.gapless_ofStream.1 Program.gapless_ofStream.2

end Check

/-! Tokens at the same places. -/

/-- The causes of problems do not depend on where these stand. -/
theorem Diagnosed.Moves.causes {ε α α' : Type} {g : α → α'} {x : Diagnosed ε α}
    {x' : Diagnosed ε α'} (moves : Moves f g x x') :
    x'.notes.map (·.cause) = x.notes.map (·.cause) := by
  rw [moves.notes, List.map_map]
  rfl

/-- Sources with the same tokens become equal when all tokens are put at one place. -/
theorem TokenStream.put_eq_of_same_tokens {stream stream' : TokenStream} (pos : Position)
    (same : stream.toList.map (fun token => (token.kind, token.literal)) =
      stream'.toList.map fun token => (token.kind, token.literal)) :
    stream.put (fun _ => pos) = stream'.put fun _ => pos := by
  have atOnePlace : ∀ tokens : List Token, tokens.map (Token.put fun _ => pos) =
      (tokens.map fun token => (token.kind, token.literal)).map fun shown =>
        ⟨shown.1, shown.2, pos⟩ := by
    intro tokens
    rw [List.map_map]
    rfl
  have together : (stream.tokens ++ [stream.finish]).map (Token.put fun _ => pos) =
      (stream'.tokens ++ [stream'.finish]).map (Token.put fun _ => pos) := by
    rw [atOnePlace, atOnePlace]
    exact congrArg _ same
  rw [List.map_append, List.map_append] at together
  obtain ⟨tokens, finish⟩ := List.append_inj' together rfl
  rw [put, put, tokens, List.singleton_inj.mp finish]

/-- Layout does not matter. Sources whose tokens have the same kinds and literals are read as the
same program, up to where its tokens stand, with problems of the same causes in the same order; and
so a check gives both the same type and environment, and notes problems of the same causes. The
class and the message of a problem are those of its cause. -/
theorem Program.layout_does_not_matter {file file' source source' : String}
    (same : (TokenStream.ofSource file source).toList.map
        (fun token => (token.kind, token.literal)) =
      (TokenStream.ofSource file' source').toList.map fun token => (token.kind, token.literal)) :
    (ofSource file source).value.unplaced = (ofSource file' source').value.unplaced ∧
    (ofSource file source).notes.map (·.cause) = (ofSource file' source').notes.map (·.cause) ∧
    ∀ o, (Check.program o .empty (ofSource file source).value).value =
        (Check.program o .empty (ofSource file' source').value).value ∧
      (Check.program o .empty (ofSource file source).value).notes.map (·.cause) =
        (Check.program o .empty (ofSource file' source').value).notes.map (·.cause) := by
  have onePlace := TokenStream.put_eq_of_same_tokens Token.nowhere.pos same
  have read := @moves_ofStream (fun _ => Token.nowhere.pos) (.ofSource file source)
  have read' := @moves_ofStream (fun _ => Token.nowhere.pos) (.ofSource file' source')
  rw [onePlace] at read
  refine ⟨?_, ?_, fun o => ?_⟩
  · rw [ofSource, ofSource, ← unplaced_put, ← read.value, read'.value, unplaced_put]
  · exact read.causes.symm.trans read'.causes
  · have checked := @Check.moves_ofStream (fun _ => Token.nowhere.pos) o .empty
      (.ofSource file source)
    have checked' := @Check.moves_ofStream (fun _ => Token.nowhere.pos) o .empty
      (.ofSource file' source')
    rw [onePlace] at checked
    constructor
    · exact checked.value.symm.trans checked'.value
    · exact checked.causes.symm.trans checked'.causes

/-- A definition of the wrong type, and a form that is left open, on one line. -/
def onOneLine : String := "(define n : num \"x\") (+ n (y"

/-- The same tokens with a comment and other breaks between them. -/
def onThreeLines : String := "(define n:num ; a text\n  \"x\")\n(+ n(y"

theorem Program.layout_does_not_matter_of_comment :
    (TokenStream.ofSource "a.tl" onOneLine).toList ≠
      (TokenStream.ofSource "a.tl" onThreeLines).toList ∧
    (ofSource "a.tl" onOneLine).value.unplaced = (ofSource "a.tl" onThreeLines).value.unplaced ∧
    (ofSource "a.tl" onThreeLines).notes.map (·.cause) = [.unclosedParen, .unclosedParen] ∧
    ((Check.program .standard .empty (ofSource "a.tl" onThreeLines).value).notes.map (·.cause)).map
      TypeError.message = ["define n: declared num, got str", "unbound variable y"] := by
  have same : (TokenStream.ofSource "a.tl" onOneLine).toList.map
        (fun token => (token.kind, token.literal)) =
      (TokenStream.ofSource "a.tl" onThreeLines).toList.map
        fun token => (token.kind, token.literal) := by
    decide +kernel
  obtain ⟨program, causes, checked⟩ := layout_does_not_matter same
  refine ⟨by decide +kernel, program, ?_, ?_⟩
  · rw [← causes]
    decide +kernel
  · rw [← (checked .standard).2]
    decide +kernel

/-! Tokens outside of a source. -/

/-- Every token but the given ones is put one column further. -/
def Token.outside (tokens : List Token) (token : Token) : Position :=
  if token ∈ tokens then token.pos else token.pos.advance ' '

theorem Token.put_outside_eq_iff {tokens : List Token} {token : Token} :
    token.put (outside tokens) = token ↔ token ∈ tokens := by
  constructor
  · intro fixed
    by_contra absent
    have moved : (token.pos.advance ' ').column = token.pos.column := by
      have column := congrArg (·.pos.column) fixed
      simpa [put, outside, absent] using column
    have further : (token.pos.advance ' ').column = token.pos.column + 1 := rfl
    omega
  · intro member
    simp [put, outside, member]

theorem TokenStream.put_outside {stream : TokenStream} :
    stream.put (Token.outside stream.toList) = stream := by
  have fixed : ∀ token ∈ stream.toList, token.put (Token.outside stream.toList) = token :=
    fun _ member => Token.put_outside_eq_iff.mpr member
  have tokens : stream.tokens.map (Token.put (Token.outside stream.toList)) = stream.tokens :=
    (List.map_congr_left fun token member => fixed token (List.mem_append_left _ member)).trans
      (List.map_id _)
  have finish : stream.finish.put (Token.outside stream.toList) = stream.finish :=
    fixed _ (List.mem_append_right _ List.mem_cons_self)
  rw [put, tokens, finish]

/-- A computation that does not change when the tokens outside are put elsewhere notes no problem
there. -/
theorem Diagnosed.Moves.anchors_mem {ε α : Type} {g : α → α} {x : Diagnosed ε α}
    {tokens : List Token} (moves : Moves (Token.outside tokens) g x x) :
    ∀ note ∈ x.notes, note.anchor ∈ tokens := by
  have fixed : x.notes.map (Diagnostic.put (Token.outside tokens)) = x.notes.map id := by
    rw [List.map_id]
    exact moves.notes.symm
  intro note member
  apply Token.put_outside_eq_iff.mp
  exact congrArg (·.anchor) (List.map_inj_left.mp fixed note member)

/-- Every diagnostic points into its source: what is wrong with the form of a source, and what a
check finds wrong with the program it is read as, is anchored at one of its tokens, or at its
end. -/
theorem Program.diagnostics_point_into_source (o : Options) (file source : String) :
    (∀ note ∈ (ofSource file source).notes,
      note.anchor ∈ (TokenStream.ofSource file source).toList) ∧
    ∀ note ∈ (Check.program o .empty (ofSource file source).value).notes,
      note.anchor ∈ (TokenStream.ofSource file source).toList := by
  have read := @moves_ofStream (Token.outside (TokenStream.ofSource file source).toList)
    (.ofSource file source)
  have checked := @Check.moves_ofStream (Token.outside (TokenStream.ofSource file source).toList)
    o .empty (.ofSource file source)
  rw [TokenStream.put_outside] at read checked
  exact ⟨read.anchors_mem, checked.anchors_mem⟩

end TypedForms
