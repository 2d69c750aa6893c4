import TypedForms.Token

/-! Diagnostics, and computations that go on after a problem. A problem is noted with the
token it is anchored at; the notes of a computation stand in the order of their making. -/
namespace TypedForms

/-- Causes that can be put into words. -/
class Explained (ε : Type) where
  message : ε → String

structure Diagnostic (ε : Type) where
  anchor : Token
  cause : ε
  deriving DecidableEq

namespace Diagnostic

variable {ε : Type}

def message [Explained ε] (d : Diagnostic ε) : String := Explained.message d.cause

def text [Explained ε] (d : Diagnostic ε) : String := d.anchor.pos.render ++ ": " ++ d.message

end Diagnostic

/-- A value together with the diagnostics that were noted on the way to it. -/
structure Diagnosed (ε α : Type) where
  value : α
  notes : List (Diagnostic ε)

namespace Diagnosed

variable {ε α β : Type}

instance : Monad (Diagnosed ε) where
  pure a := ⟨a, []⟩
  bind x f := ⟨(f x.value).value, x.notes ++ (f x.value).notes⟩

@[simp] theorem value_pure (a : α) : (pure a : Diagnosed ε α).value = a := rfl

@[simp] theorem notes_pure (a : α) : (pure a : Diagnosed ε α).notes = [] := rfl

@[simp] theorem value_bind (x : Diagnosed ε α) (f : α → Diagnosed ε β) :
    (x >>= f).value = (f x.value).value := rfl

@[simp] theorem notes_bind (x : Diagnosed ε α) (f : α → Diagnosed ε β) :
    (x >>= f).notes = x.notes ++ (f x.value).notes := rfl

@[ext] theorem ext {x y : Diagnosed ε α} (value : x.value = y.value) (notes : x.notes = y.notes) :
    x = y := by
  cases x; cases y; simp_all

instance : LawfulMonad (Diagnosed ε) := LawfulMonad.mk' _
  (fun x => by apply ext <;> simp [Functor.map])
  (fun a f => by apply ext <;> simp)
  (fun x f g => by apply ext <;> simp)

@[simp] theorem value_map (f : α → β) (x : Diagnosed ε α) : (f <$> x).value = f x.value := rfl

@[simp] theorem notes_map (f : α → β) (x : Diagnosed ε α) : (f <$> x).notes = x.notes := by
  simp [Functor.map]

/-- Notes one problem. -/
def note (anchor : Token) (cause : ε) : Diagnosed ε Unit := ⟨(), [⟨anchor, cause⟩]⟩

@[simp] theorem notes_note (anchor : Token) (cause : ε) :
    (note anchor cause).notes = [⟨anchor, cause⟩] := rfl

/-- Runs computations one after another. -/
def sequence : List (Diagnosed ε α) → Diagnosed ε (List α)
  | [] => pure []
  | x :: xs => do
    let value ← x
    let values ← sequence xs
    pure (value :: values)

end Diagnosed

end TypedForms
