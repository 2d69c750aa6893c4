import Mathlib.Data.List.Forall2
import TypedForms.Diagnostic

/-! Computations without a note. A computation in steps is one only if every step is, and then
its result is that of the last step. -/
namespace TypedForms.Diagnosed

variable {ε α β : Type}

theorem eq_pure_iff {x : Diagnosed ε α} {a : α} : x = pure a ↔ x.notes = [] ∧ x.value = a := by
  constructor
  · rintro rfl
    exact ⟨rfl, rfl⟩
  · rintro ⟨notes, value⟩
    exact ext value notes

@[simp] theorem pure_inj {a b : α} : (pure a : Diagnosed ε α) = pure b ↔ a = b := by
  simp [eq_pure_iff]

theorem bind_eq_pure_iff {x : Diagnosed ε α} {f : α → Diagnosed ε β} {b : β} :
    x >>= f = pure b ↔ ∃ a, x = pure a ∧ f a = pure b := by
  simp only [eq_pure_iff, value_bind, notes_bind, List.append_eq_nil_iff]
  constructor
  · rintro ⟨⟨first, second⟩, value⟩
    exact ⟨x.value, ⟨first, rfl⟩, second, value⟩
  · rintro ⟨_, ⟨first, rfl⟩, second, value⟩
    exact ⟨⟨first, second⟩, value⟩

/-- Nothing undoes a note. -/
@[simp] theorem note_bind_ne_pure {anchor : Token} {cause : ε} {f : Unit → Diagnosed ε β}
    {b : β} : ¬ (note anchor cause >>= f) = pure b := by
  simp [eq_pure_iff]

theorem sequence_eq_pure_iff {xs : List (Diagnosed ε α)} {values : List α} :
    sequence xs = pure values ↔ List.Forall₂ (fun x value => x = pure value) xs values := by
  induction xs generalizing values with
  | nil =>
    rw [sequence, pure_inj, List.forall₂_nil_left_iff]
    exact eq_comm
  | cons x xs ih =>
    simp only [sequence, bind_eq_pure_iff, pure_inj, List.forall₂_cons_left_iff]
    constructor
    · rintro ⟨a, first, as, rest, rfl⟩
      exact ⟨a, as, first, ih.mp rest, rfl⟩
    · rintro ⟨a, as, first, rest, rfl⟩
      exact ⟨a, first, as, ih.mpr rest, rfl⟩

/-- Where each of some tokens is noted, there are none if there is no note. -/
theorem eq_nil_of_sequence_note {tokens : List Token} {cause : ε} {values : List Unit}
    (clean : sequence (tokens.map fun token => note token cause) = pure values) : tokens = [] := by
  rw [sequence_eq_pure_iff, List.forall₂_map_left_iff] at clean
  cases clean with
  | nil => rfl
  | cons noted _ => simp [eq_pure_iff] at noted

theorem value_sequence {xs : List (Diagnosed ε α)} :
    (sequence xs).value = xs.map (·.value) := by
  induction xs with
  | nil => rfl
  | cons x xs ih => simp [sequence, ih]

theorem notes_sequence {xs : List (Diagnosed ε α)} :
    (sequence xs).notes = xs.flatMap (·.notes) := by
  induction xs with
  | nil => rfl
  | cons x xs ih => simp [sequence, ih]

/-- Computations that do not wait for each other can be run in any order. -/
theorem sequence_perm {xs xs' : List (Diagnosed ε α)} (perm : xs.Perm xs') :
    (sequence xs).value.Perm (sequence xs').value ∧
      (sequence xs).notes.Perm (sequence xs').notes := by
  rw [value_sequence, value_sequence, notes_sequence, notes_sequence]
  exact ⟨perm.map _, perm.flatMap_right _⟩

end TypedForms.Diagnosed
