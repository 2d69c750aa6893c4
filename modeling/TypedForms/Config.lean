import TypedForms.Options
import TypedForms.Text.Blank
import TypedForms.Ty.Parse
import TypedForms.Yaml.Write

/-! Configurations: options as texts, the way a file holds them. A text that is empty leaves the
option at its standard value. -/
namespace TypedForms

structure Config where
  readType : String
  policy : String
  resultType : String
  deriving DecidableEq

namespace Config

def empty : Config := ⟨"", "", ""⟩

/-- Why a configuration gives no options. -/
inductive Problem where
  | badType (field : String) (error : Diagnostic ParseError)
  | unknownPolicy (name : String)
  | unfit (problem : Options.Problem)

def Problem.message : Problem → String
  | .badType field error => field ++ ": " ++ error.text
  | .unknownPolicy name => "eval.policy: " ++ EvalPolicy.unknownMessage name
  | .unfit problem => problem.message

/-- The type that a field holds, or the standard one if the field is empty. -/
def typeOf (field text : String) (standard : Option Ty) : Except Problem (Option Ty) :=
  if text == "" then .ok standard
  else
    let parsed := Ty.ofSource text
    match parsed.notes with
    | [] => .ok (some parsed.value)
    | error :: _ => .error (.badType field error)

def options (c : Config) : Except Problem Options := do
  let readType ← typeOf "read_type" c.readType Options.standard.readType
  let name := String.ofList (Text.trim c.policy.toList)
  let policy ← match EvalPolicy.ofName? name with
    | some policy => .ok policy
    | none => .error (.unknownPolicy name)
  let evalType ← typeOf "eval.result_type" c.resultType Options.standard.evalType
  let options : Options := ⟨readType, policy, evalType⟩
  match options.problem? with
  | some problem => .error (.unfit problem)
  | none => .ok options

/-- The configuration that stands for options. Types that are not set leave no text. -/
def ofOptions (o : Options) : Config :=
  ⟨(o.readType.map Ty.render).getD "", o.eval.name, (o.evalType.map Ty.render).getD ""⟩

/-- An entry for a text; an empty text has none. -/
def writeField (indent : Nat) (key value : String) : String :=
  if value == "" then ""
  else String.ofList (List.replicate indent ' ' ++ key.toList ++ ": ".toList ++
    Yaml.writeText (indent + 2) value.toList)

/-- The text of a configuration. Empty fields are left out, and so is a group of them. -/
def write (c : Config) : String :=
  let inner := writeField 2 "policy" c.policy ++ writeField 2 "result_type" c.resultType
  writeField 0 "read_type" c.readType ++ if inner == "" then "" else "eval:\n" ++ inner

end Config

end TypedForms
