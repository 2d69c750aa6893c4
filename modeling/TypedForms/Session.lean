import TypedForms.Outcome
import TypedForms.Text.Blank
import TypedForms.Text.Split

/-! Interactive sessions. A session keeps the definitions made so far; every input is a command
or a sequence of forms that are checked one by one. -/
namespace TypedForms

/-- The environment so far, and the problems of the form that was checked last. -/
structure Session where
  options : Options
  env : Env Ty
  problems : List (Diagnostic TypeError)

namespace Session

def start (o : Options) : Session := ⟨o, .empty, []⟩

/-- The name that diagnostics give to the input. -/
def sourceName : String := "repl"

/-- Whether an input has more opening than closing parentheses. -/
def isIncomplete (source : String) : Bool :=
  let kinds := (TokenStream.ofSource sourceName source).tokens.map (·.kind)
  decide (kinds.count (.mark .rparen) < kinds.count (.mark .lparen))

inductive Command where
  | quit
  | env
  | reset
  | help
  | unknown (text : String)

/-- The lower-case letter of a character, as far as that is a letter of ASCII. -/
def lowerLetter (c : Char) : Char :=
  if 'A' ≤ c ∧ c ≤ 'Z' then Char.ofNat (c.toNat + 32)
  else if c.toNat = 0x130 then 'i'
  else if c.toNat = 0x212a then 'k'
  else c

/-- An input whose first character that is not blank is a colon is a command. -/
def isCommand (input : String) : Bool := (Text.trim input.toList).head? == some ':'

def Command.ofInput (input : String) : Command :=
  let text := Text.trim input.toList
  match String.ofList (text.map lowerLetter) with
  | ":quit" => .quit
  | ":q" => .quit
  | ":env" => .env
  | ":reset" => .reset
  | ":help" => .help
  | _ => .unknown (String.ofList text)

def helpText : String :=
  "Enter expressions or (define name [: type] value) forms.\n" ++
  "  :env    list the names in scope with their types\n" ++
  "  :reset  forget every definition\n" ++
  "  :help   show this message\n" ++
  "  :quit   leave\n"

/-- What an input does: the session after it, the text it prints, and whether to go on. -/
structure Reply where
  session : Session
  output : String
  goesOn : Bool

/-- The names in scope with their types. -/
def listing (env : Env Ty) : List (String × Ty) :=
  env.names.filterMap fun name => (env.lookup? name).map (name, ·)

def runCommand (s : Session) : Command → Reply
  | .quit => ⟨s, "", false⟩
  | .env =>
    let lines := (listing s.env).map fun binding =>
      binding.1 ++ " : " ++ binding.2.render ++ "\n"
    ⟨s, String.join lines, true⟩
  | .reset => ⟨{ s with env := .empty }, "environment cleared\n", true⟩
  | .help => ⟨s, helpText, true⟩
  | .unknown text => ⟨s, "unknown command " ++ text ++ ". Type :help for the list.\n", true⟩

/-- Checks one form. A definition is kept even when its value is ill typed. -/
def checkForm (s : Session) : Form → Session × String
  | .define d =>
    let checked := Check.decl s.options s.env d
    (⟨s.options, checked.value.2, checked.notes⟩,
      Outcome.problemLines checked.notes ++ d.binder.name ++ " : " ++ checked.value.1.render ++
        "\n")
  | .expr e =>
    let checked := Check.expr s.options s.env e
    (⟨s.options, s.env, checked.notes⟩,
      Outcome.problemLines checked.notes ++ checked.value.render ++ "\n")

def checkForms (s : Session) : List Form → Session × String
  | [] => (s, "")
  | form :: forms =>
    let (s, first) := s.checkForm form
    let (s, rest) := s.checkForms forms
    (s, first ++ rest)

/-- Checks the forms of an input. If the input has syntax errors, nothing in it is checked. -/
def checkInput (s : Session) (source : String) : Session × String :=
  let parsed := Form.ofStream (.ofSource sourceName source)
  if parsed.notes.isEmpty then s.checkForms parsed.value
  else (s, Outcome.problemLines parsed.notes)

def step (s : Session) (input : String) : Reply :=
  if isCommand input then s.runCommand (.ofInput input)
  else
    let (s, output) := s.checkInput input
    ⟨s, output, true⟩

/-- The session after inputs, whether or not one of them asks to leave. -/
def after (s : Session) (inputs : List String) : Session :=
  inputs.foldl (fun s input => (s.step input).session) s

end Session

end TypedForms
