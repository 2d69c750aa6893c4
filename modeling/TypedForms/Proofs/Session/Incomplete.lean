import TypedForms.Proofs.Datum.Lossless
import TypedForms.Proofs.Token.Lines
import TypedForms.Session

/-! When a session asks for more input. It counts parentheses and reads nothing; what it finds is
what reading would find, as far as no parenthesis is stray. -/
namespace TypedForms

namespace Form

/-- The problems that are noted when the forms of a source are read. -/
def causes (stream : TokenStream) : List ParseError := (ofStream stream).notes.map (·.cause)

variable {stream : TokenStream} {cause : ParseError}

/-- A problem with parentheses is noted as often as the reader notes it. -/
theorem count_causes (reading : cause.isReading = true) :
    (causes stream).count cause =
      ((Token.strays stream.tokens).map fun _ => ParseError.strayParen).count cause +
        ((Token.unclosed stream.tokens).map fun _ => ParseError.unclosedParen).count cause := by
  have noted : (ofStream stream).notes.filter (·.cause.isReading) = _ :=
    notes_ofItems.trans (Reader.holds_foldl stream.tokens).notes_finish
  have onlyReading : (causes stream).count cause =
      (((ofStream stream).notes.filter (·.cause.isReading)).map (·.cause)).count cause := by
    rw [← List.count_filter reading, causes, List.filter_map]
    rfl
  rw [onlyReading, noted, List.map_append, List.count_append]
  simp [Function.comp_def]

theorem count_strayParen :
    (causes stream).count .strayParen = (Token.strays stream.tokens).length := by
  rw [count_causes rfl]
  simp [List.count_replicate]

theorem count_unclosedParen :
    (causes stream).count .unclosedParen = (Token.unclosed stream.tokens).length := by
  rw [count_causes rfl]
  simp [List.count_replicate]

/-- The parentheses that are noted make up for the difference. -/
theorem count_lparen_add_strayParen :
    Token.count .lparen stream.tokens + (causes stream).count .strayParen =
      Token.count .rparen stream.tokens + (causes stream).count .unclosedParen := by
  rw [count_strayParen, count_unclosedParen]
  exact Token.count_lparen_add_strays stream.tokens

end Form

namespace Session

/-- The file that a text is read from does not matter for the test. -/
theorem isIncomplete_iff {file source : String} :
    isIncomplete source = true ↔
      Token.count .rparen (TokenStream.ofSource file source).tokens <
        Token.count .lparen (TokenStream.ofSource file source).tokens := by
  have kinds : (TokenStream.ofSource sourceName source).tokens.map (·.kind) =
      (TokenStream.ofSource file source).tokens.map (·.kind) := by
    rw [TokenStream.ofSource, TokenStream.ofSource, @TokenStream.tokens_inFile file sourceName,
      List.map_map]
    rfl
  unfold isIncomplete
  simp only [kinds, decide_eq_true_eq]
  rfl

/-- For every text, and whatever file it is read from, reading notes as many more unclosed than
stray parentheses as the text has more opening than closing ones. So where the session asks for
more, reading would note an unclosed parenthesis; and where it does not, and no parenthesis is
stray, none is unclosed. -/
theorem incomplete_agrees_with_reading (file source : String) :
    ((Form.causes (.ofSource file source)).count .unclosedParen : Int) -
          (Form.causes (.ofSource file source)).count .strayParen =
        Token.count .lparen (TokenStream.ofSource file source).tokens -
          Token.count .rparen (TokenStream.ofSource file source).tokens ∧
      (isIncomplete source = true → .unclosedParen ∈ Form.causes (.ofSource file source)) ∧
      (isIncomplete source = false → .strayParen ∉ Form.causes (.ofSource file source) →
        .unclosedParen ∉ Form.causes (.ofSource file source)) ∧
      ParseError.message .strayParen = "unexpected \")\"" ∧
      ParseError.message .unclosedParen = "unclosed \"(\"" := by
  have balance := @Form.count_lparen_add_strayParen (.ofSource file source)
  have test := @isIncomplete_iff file source
  refine ⟨?_, ?_, ?_, by decide +kernel, by decide +kernel⟩
  · omega
  · intro incomplete
    have more := test.mp incomplete
    apply List.count_pos_iff.mp
    omega
  · intro complete noStray
    have enough : ¬ isIncomplete source = true := by
      rw [complete]
      exact Bool.false_ne_true
    rw [test] at enough
    rw [← List.count_eq_zero] at noStray ⊢
    omega

/-- A stray parenthesis makes up for one that is not closed. -/
example : isIncomplete ") (a" = false ∧
    Form.causes (.ofSource "" ") (a") = [.strayParen, .unclosedParen] := by
  decide +kernel

/-- Parentheses in strings and comments do not count. -/
example : isIncomplete "(f \")\" ; )" = true ∧
    Form.causes (.ofSource "" "(f \")\" ; )") = [.unclosedParen] := by
  decide +kernel

end Session

end TypedForms
