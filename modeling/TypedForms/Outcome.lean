import TypedForms.Check
import TypedForms.Program.Parse

/-! The outcome of checking one file, and how it is reported. -/
namespace TypedForms

/-- What checking a file came to. A file with syntax errors is not checked any further. -/
inductive Verdict where
  | unreadable (reason : String)
  | misread (errors : List (Diagnostic ParseError))
  | checked (type : Ty) (errors : List (Diagnostic TypeError))

structure Outcome where
  file : String
  verdict : Verdict

namespace Outcome

def ofSource (o : Options) (file source : String) : Outcome :=
  let parsed := Program.ofSource file source
  if parsed.notes.isEmpty then
    let checked := Check.program o .empty parsed.value
    ⟨file, .checked checked.value.1 checked.notes⟩
  else ⟨file, .misread parsed.notes⟩

def isOk (r : Outcome) : Bool :=
  match r.verdict with
  | .checked type errors => errors.isEmpty && !type.isError
  | _ => false

def status (r : Outcome) : String :=
  match r.verdict with
  | .unreadable _ => "unreadable"
  | .misread _ => "syntax"
  | .checked .. => if r.isOk then "ok" else "ill-typed"

/-- One line for each problem. -/
def problemLines {ε : Type} [Explained ε] (errors : List (Diagnostic ε)) : String :=
  String.join (errors.map fun d => d.text ++ "\n")

def report (r : Outcome) : String :=
  match r.verdict with
  | .unreadable reason => "⚠️ Error reading " ++ r.file ++ ": " ++ reason ++ "\n"
  | .misread errors => problemLines errors
  | .checked type errors => problemLines errors ++ r.file ++ ": " ++ type.render ++ "\n"

/-- What the result log keeps of the outcome. -/
def detail (r : Outcome) : String :=
  match r.verdict with
  | .unreadable reason => reason
  | .misread errors => toString errors.length ++ " syntax error(s)"
  | .checked type errors =>
    if errors.isEmpty then type.render else toString errors.length ++ " type error(s)"

end Outcome

end TypedForms
