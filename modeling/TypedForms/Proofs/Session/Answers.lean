import Mathlib.Data.List.Basic
import TypedForms.Session

/-! What a session answers to forms. The environment after them depends on their definitions only,
and the text that is printed is put together from one answer for each form. -/
namespace TypedForms

/-- The definition that a form is, if it is one. -/
def Form.decl? : Form → Option Decl
  | .define d => some d
  | .expr _ => none

/-- The environment after definitions. Each one sees those before it, and is kept whatever its value
turns out to be. -/
def Check.after (o : Options) (env : Env Ty) (ds : List Decl) : Env Ty :=
  ds.foldl (fun env d => (Check.decl o env d).value.2) env

namespace Session

variable {o : Options} {env : Env Ty} {s : Session} {form : Form} {forms : List Form}

/-- The answer to a form: its problems, and then a line that tells its type. -/
structure Answer where
  notes : List (Diagnostic TypeError)
  line : String

def Answer.text (answer : Answer) : String :=
  Outcome.problemLines answer.notes ++ answer.line ++ "\n"

/-- The line for a definition starts with the name. -/
def answer (o : Options) (env : Env Ty) : Form → Answer
  | .define d =>
    let checked := Check.decl o env d
    ⟨checked.notes, d.binder.name ++ " : " ++ checked.value.1.render⟩
  | .expr e =>
    let checked := Check.expr o env e
    ⟨checked.notes, checked.value.render⟩

/-- The environment after forms. -/
def envAfter (o : Options) (env : Env Ty) (forms : List Form) : Env Ty :=
  Check.after o env (forms.filterMap Form.decl?)

theorem envAfter_append {more : List Form} :
    envAfter o env (forms ++ more) = envAfter o (envAfter o env forms) more := by
  simp [envAfter, Check.after]

theorem envAfter_cons :
    envAfter o env (form :: forms) = envAfter o (envAfter o env [form]) forms :=
  @envAfter_append o env [form] forms

theorem options_checkForm : (s.checkForm form).1.options = s.options := by
  cases form <;> rfl

theorem env_checkForm : (s.checkForm form).1.env = envAfter s.options s.env [form] := by
  cases form <;> rfl

theorem options_checkForms : (s.checkForms forms).1.options = s.options := by
  induction forms generalizing s with
  | nil => rfl
  | cons form forms ih => exact ih.trans options_checkForm

theorem env_checkForms : (s.checkForms forms).1.env = envAfter s.options s.env forms := by
  induction forms generalizing s with
  | nil => rfl
  | cons form forms ih =>
    calc ((s.checkForm form).1.checkForms forms).1.env
        = envAfter (s.checkForm form).1.options (s.checkForm form).1.env forms := ih
      _ = envAfter s.options s.env (form :: forms) := by
        rw [options_checkForm, env_checkForm, ← envAfter_cons]

/-- The forms of an input, with its syntax errors. -/
def read (input : String) : Diagnosed ParseError (List Form) :=
  Form.ofStream (.ofSource sourceName input)

theorem checkInput_clean {input : String} (clean : (read input).notes = []) :
    s.checkInput input = s.checkForms (read input).value := by
  rw [read] at clean
  simp [checkInput, clean, read]

theorem checkInput_faulty {input : String} (faulty : (read input).notes ≠ []) :
    (s.checkInput input).1 = s := by
  rw [read] at faulty
  simp [checkInput, faulty]

end Session

end TypedForms
