import TypedForms.Distinct

/-! Environments: what each visible name is bound to. Extending an environment makes a new one
and leaves the old one as it is. -/
namespace TypedForms

/-- Bindings, the innermost first. -/
structure Env (α : Type) where
  frames : List (String × α)

namespace Env

variable {α : Type}

def empty : Env α := ⟨[]⟩

def extend (env : Env α) (name : String) (value : α) : Env α := ⟨(name, value) :: env.frames⟩

/-- Binds names from left to right, so that of two equal names the later one counts. -/
def extendAll (env : Env α) (bound : List (String × α)) : Env α :=
  bound.foldl (fun env binding => env.extend binding.1 binding.2) env

/-- Names and values that cannot be paired up. -/
structure Unpaired where
  names : Nat
  values : Nat

def Unpaired.message (u : Unpaired) : String :=
  "ExtendAll: " ++ toString u.names ++ " names for " ++ toString u.values ++ " values"

/-- Binds names to the values at the same places. -/
def extendPaired (env : Env α) (names : List String) (values : List α) :
    Except Unpaired (Env α) :=
  if names.length = values.length then .ok (env.extendAll (names.zip values))
  else .error ⟨names.length, values.length⟩

/-- The value of the innermost binding of a name. -/
def lookup? (env : Env α) (name : String) : Option α :=
  (env.frames.find? (·.1 == name)).map (·.2)

/-- The visible names, the innermost first. -/
def names (env : Env α) : List String := distinct (env.frames.map (·.1))

end Env

end TypedForms
