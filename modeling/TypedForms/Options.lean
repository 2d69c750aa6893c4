import TypedForms.Text.Quoted
import TypedForms.Ty

/-! What the checker is told about input and about code made at run time. -/
namespace TypedForms

/-- What to make of `eval`. Any other number than those of the two policies is possible in
options that were not read from a configuration; it rejects. -/
inductive EvalPolicy where
  | reject
  | dynamic
  | other (code : Int)
  deriving DecidableEq

namespace EvalPolicy

def ofCode (n : Int) : EvalPolicy :=
  if n = 0 then .reject else if n = 1 then .dynamic else .other n

def code : EvalPolicy → Int
  | .reject => 0
  | .dynamic => 1
  | .other n => n

def name : EvalPolicy → String
  | .reject => "reject"
  | .dynamic => "dynamic"
  | .other n => "EvalPolicy(" ++ toString n ++ ")"

/-- A policy as it is spelled in a configuration. -/
def ofName? (name : String) : Option EvalPolicy :=
  match name with
  | "" => some .reject
  | "reject" => some .reject
  | "dynamic" => some .dynamic
  | _ => none

def unknownMessage (name : String) : String :=
  "unknown eval policy " ++ Text.quote name ++ " (want reject or dynamic)"

end EvalPolicy

/-- The type of what is read, the policy for `eval`, and the type of what is evaluated. Types
that are not set are `str`. -/
structure Options where
  readType : Option Ty
  eval : EvalPolicy
  evalType : Option Ty

namespace Options

def standard : Options := ⟨some .str, .reject, some .str⟩

def inputType (o : Options) : Ty := o.readType.getD .str

def evalResult (o : Options) : Ty := o.evalType.getD .str

/-- Why options are not fit to be used. -/
inductive Problem where
  | noReadType
  | abstractReadType (type : Ty)
  | noEvalType
  | abstractEvalType (type : Ty)

def Problem.message : Problem → String
  | .noReadType => "read type must be set"
  | .abstractReadType type => "read type " ++ type.render ++ " is not a concrete type"
  | .noEvalType => "eval policy dynamic needs a result type"
  | .abstractEvalType type => "eval result type " ++ type.render ++ " is not a concrete type"

/-- The first problem of options. The type of what is evaluated matters only where evaluation
is allowed. -/
def problem? (o : Options) : Option Problem :=
  match o.readType with
  | none => some .noReadType
  | some readType =>
    if !readType.isConcrete then some (.abstractReadType readType)
    else if o.eval = .dynamic then
      match o.evalType with
      | none => some .noEvalType
      | some evalType =>
        if evalType.isConcrete then none else some (.abstractEvalType evalType)
    else none

end Options

end TypedForms
