import TypedForms.Diagnostic
import TypedForms.Expr

/-! What can be wrong with the types of a program. -/
namespace TypedForms

inductive TypeError where
  | operand (index : Nat) (op : String) (got : Ty)
  | condition (got : Ty)
  | branches (yes no : Ty)
  | declared (form : BindingForm) (name : String) (expected got : Ty)
  | declaredResult (form : BindingForm) (name : String) (expected got : Ty)
  | notFunction (got : Ty)
  | argumentCount (callee : Ty) (expected found : Nat)
  | argument (index : Nat) (expected got : Ty)
  | notPair (op : String) (got : Ty)
  | element (index : Nat) (expected got : Ty)
  | notList (got : Ty)
  | notReference (op : String) (got : Ty)
  | cell (holds got : Ty)
  | source (got : Ty)
  | code (got : Ty)
  | broken (message : String)
  | untyped (name : String)
  | invalidType (type : Ty)
  | unbound (name : String)
  | untypable
  | absentExpression
  | noJoin (left right : Ty)

/-- The phrase that names a binding form in messages. -/
def BindingForm.phrase : BindingForm → String
  | .define => "define"
  | .letIn => "let binding"
  | .letrec => "letrec binding"

namespace TypeError

/-- The classes of problems. A lapse is no fault of the program under check: the tree has a
gap, or a rule was applied outside of its domain. -/
inductive Category where
  | mismatch
  | malformed
  | unbound
  | untypable
  | lapse
  deriving DecidableEq

def category : TypeError → Category
  | .broken _ | .untyped _ | .invalidType _ => .malformed
  | .unbound _ => .unbound
  | .untypable => .untypable
  | .absentExpression | .noJoin .. => .lapse
  | _ => .mismatch

def message : TypeError → String
  | .operand index op got =>
    "operand " ++ toString index ++ " of " ++ op ++ ": expected num, got " ++ got.render
  | .condition got => "if condition: expected bool, got " ++ got.render
  | .branches yes no => "if branches disagree: " ++ yes.render ++ " vs " ++ no.render
  | .declared form name expected got =>
    form.phrase ++ " " ++ name ++ ": declared " ++ expected.render ++ ", got " ++ got.render
  | .declaredResult form name expected got =>
    form.phrase ++ " " ++ name ++ ": declared return type " ++ expected.render ++
      ", body has type " ++ got.render
  | .notFunction got => "cannot call " ++ got.render ++ ": not a function"
  | .argumentCount callee expected found =>
    "call of " ++ callee.render ++ ": expected " ++ toString expected ++ " argument(s), got " ++
      toString found
  | .argument index expected got =>
    "argument " ++ toString index ++ ": expected " ++ expected.render ++ ", got " ++ got.render
  | .notPair op got => op ++ ": expected a pair, got " ++ got.render
  | .element index expected got =>
    "list element " ++ toString index ++ ": expected " ++ expected.render ++ ", got " ++
      got.render
  | .notList got => "null?: expected a list, got " ++ got.render
  | .notReference op got => op ++ ": expected a reference, got " ++ got.render
  | .cell holds got => "set!: cell holds " ++ holds.render ++ ", got " ++ got.render
  | .source got => "read: expected a str source, got " ++ got.render
  | .code got => "eval: expected a str program, got " ++ got.render
  | .broken message => message
  | .untyped name => name ++ ": missing type annotation"
  | .invalidType type => "invalid type annotation " ++ type.render
  | .unbound name => "unbound variable " ++ name
  | .untypable => "eval cannot be typed statically"
  | .absentExpression => "checker: unhandled expression <nil>"
  | .noJoin left right => "no join of " ++ left.render ++ " and " ++ right.render

instance : Explained TypeError := ⟨message⟩

end TypeError

end TypedForms
