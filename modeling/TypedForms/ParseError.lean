import TypedForms.Diagnostic
import TypedForms.Text.Quoted

/-! What can be wrong with the form of a source. -/
namespace TypedForms

inductive ParseError where
  | unexpectedEnd
  | strayParen
  | unclosedParen
  | badNumber (literal : String)
  | illegalToken (literal : String)
  | outsideForm (literal : String)
  | emptyForm
  | formStart (literal : String)
  | nestedDefine
  | operandCount (head : String) (expected found : Nat)
  | readOperandCount (found : Nat)
  | missingElementType
  | missingType
  | expectedName
  | bindingList (head : String)
  | bindingShape
  | bindingValue (name : String)
  | defineValue (name : String)
  | untypedBinding (head name : String)
  | parameterList
  | untypedParameter (literal : String)
  | parameterShape
  | unknownType (literal : String)
  | emptyType
  | malformedType (literal : String)
  | resultTypeCount
  | afterType (literal : String)
  | defineAfterResult (name : String)
  | secondResult
  | noResult
  deriving DecidableEq

namespace ParseError

def message : ParseError → String
  | .unexpectedEnd => "unexpected end of input"
  | .strayParen => "unexpected " ++ Text.quote ")"
  | .unclosedParen => "unclosed " ++ Text.quote "("
  | .badNumber literal => "could not parse " ++ Text.quote literal ++ " as number"
  | .illegalToken literal => "illegal token " ++ Text.quote literal
  | .outsideForm literal => "unexpected " ++ Text.quote literal ++ " outside of a form"
  | .emptyForm => "empty form ()"
  | .formStart literal => "unexpected " ++ Text.quote literal ++ " at the start of a form"
  | .nestedDefine => "define is only allowed at the top level"
  | .operandCount head expected found =>
    head ++ " expects " ++ toString expected ++ " operand(s), got " ++ toString found
  | .readOperandCount found => "read expects at most 1 operand, got " ++ toString found
  | .missingElementType => "missing element type after " ++ Text.quote ":"
  | .missingType => "missing type after " ++ Text.quote ":"
  | .expectedName => "expected a variable name"
  | .bindingList head => head ++ " expects a parenthesised list of bindings"
  | .bindingShape => "binding must be a form (name [: type] value)"
  | .bindingValue name => "binding of " ++ name ++ " needs exactly one value"
  | .defineValue name => "define of " ++ name ++ " needs exactly one value"
  | .untypedBinding head name => head ++ " binding " ++ name ++ " needs a declared type"
  | .parameterList => "lambda expects a parenthesised parameter list"
  | .untypedParameter literal =>
    "parameter " ++ Text.quote literal ++ " needs a declared type: (" ++ literal ++ " : T)"
  | .parameterShape => "parameter must be written (name : type)"
  | .unknownType literal => "unknown type " ++ Text.quote literal
  | .emptyType => "empty type ()"
  | .malformedType literal => "malformed type starting with " ++ Text.quote literal
  | .resultTypeCount => "function type needs exactly one result type after " ++ Text.quote "->"
  | .afterType literal => "unexpected " ++ Text.quote literal ++ " after type"
  | .defineAfterResult name => "definition of " ++ name ++ " after the program's result expression"
  | .secondResult => "program has more than one result expression"
  | .noResult => "program has no result expression"

instance : Explained ParseError := ⟨message⟩

end ParseError

end TypedForms
