import TypedForms.Proofs.Diagnosed

/-! Computations that can come to a stop. An operation outside of its domain (an element beyond
the end of a list, a look at the last note where there is none) stops the computation that it is
part of, and nothing comes of it. Notes are added to those there are already. -/
namespace TypedForms

/-- A result and the notes so far, unless the computation stops. -/
abbrev Guarded (ε α : Type) := StateT (List (Diagnostic ε)) Option α

namespace Guarded

variable {ε α β γ : Type}

def stop : Guarded ε α := fun _ => none

/-- The result of an operation, inside of its domain. -/
def demand (found : Option α) : Guarded ε α := fun notes => found.map (·, notes)

/-- A list without so many elements at its start, which it must have. -/
def dropFirst (count : Nat) (list : List α) : Guarded ε (List α) :=
  if count ≤ list.length then pure (list.drop count) else stop

/-- So many elements from the start of a list, which it must have. -/
def takeFirst (count : Nat) (list : List α) : Guarded ε (List α) :=
  if count ≤ list.length then pure (list.take count) else stop

/-- The message of the note made last. -/
def lastMessage [Explained ε] : Guarded ε String :=
  fun notes => notes.getLast?.map fun last => (last.message, notes)

/-- A computation that does not stop. -/
def total (x : Diagnosed ε α) : Guarded ε α := fun notes => some (x.value, notes ++ x.notes)

@[simp] theorem demand_some {a : α} : (demand (some a) : Guarded ε α) = pure a := rfl

@[simp] theorem dropFirst_one_cons {a : α} {list : List α} :
    (dropFirst 1 (a :: list) : Guarded ε (List α)) = pure list := by
  simp [dropFirst]

@[simp] theorem stop_bind {f : α → Guarded ε β} : stop >>= f = stop := rfl

theorem total_nil {x : Diagnosed ε α} : total x [] = some (x.value, x.notes) := rfl

@[simp] theorem total_pure {a : α} : total (pure a : Diagnosed ε α) = pure a := by
  funext notes
  exact congrArg (fun notes => some (a, notes)) (List.append_nil notes)

theorem bind_apply {x : Guarded ε α} {f : α → Guarded ε β} {notes : List (Diagnostic ε)} :
    (x >>= f) notes = (x notes).bind fun found => f found.1 found.2 := rfl

/-- What comes after a computation that does not stop only has to go on from its result. -/
theorem total_bind {x : Diagnosed ε α} {f : α → Guarded ε β} {g : α → Diagnosed ε β}
    (next : f x.value = total (g x.value)) : total x >>= f = total (x >>= g) := by
  funext notes
  simp [bind_apply, total, next, List.append_assoc]

theorem total_bind_notes {a : α} {b : β} {earlier later : List (Diagnostic ε)}
    {f : α → Guarded ε β} (next : f a = total ⟨b, later⟩) :
    total ⟨a, earlier⟩ >>= f = total ⟨b, earlier ++ later⟩ :=
  total_bind (g := fun _ => ⟨b, later⟩) next

theorem total_bind_eq {x : Diagnosed ε α} {y : Diagnosed ε β} {f : α → Guarded ε β}
    {g : α → Diagnosed ε β} (next : f x.value = total (g x.value)) (same : x >>= g = y) :
    total x >>= f = total y := by
  rw [total_bind next, same]

theorem total_bind_value {x : Diagnosed ε α} {f : α → Guarded ε β} :
    total x >>= f = total x >>= fun _ => f x.value := rfl

theorem total_map {x : Diagnosed ε α} {f : α → β} : f <$> total x = total (f <$> x) := by
  funext notes
  simp [total, Functor.map, StateT.map]

/-- A look at the last note, where one has just been made. -/
theorem total_bind_lastMessage [Explained ε] {x : Diagnosed ε α} {anchor : Token} {cause : ε}
    (last : x.notes.getLast? = some ⟨anchor, cause⟩) {f : α → String → Guarded ε β} :
    (total x >>= fun a => lastMessage >>= f a) =
      total x >>= fun a => f a (Explained.message cause) := by
  funext notes
  have wholeLast : (notes ++ x.notes).getLast? = some ⟨anchor, cause⟩ := by
    rw [List.getLast?_append, last, Option.some_or]
  simp [bind_apply, total, lastMessage, wholeLast, Diagnostic.message]

end Guarded

end TypedForms
