import TypedForms.Program.Parse
import TypedForms.Proofs.Datum
import TypedForms.Proofs.Diagnosed

/-! Where problems with parentheses are noted. They are noted when tokens are grouped into data, and
at no time after that: what is made of a datum is never a reason to note one. -/
namespace TypedForms

/-- A problem with the parentheses of a source, or with its end. -/
def ParseError.isReading : ParseError → Bool
  | .unexpectedEnd | .strayParen | .unclosedParen => true
  | _ => false

namespace Diagnosed

variable {α β : Type} {x : Diagnosed ParseError α} {anchor : Token} {cause : ParseError}

/-- Nothing is noted about parentheses. -/
def AboutData (x : Diagnosed ParseError α) : Prop := ∀ n ∈ x.notes, n.cause.isReading = false

namespace AboutData

theorem pure {a : α} : AboutData (Pure.pure a) := by
  intro n member
  simp at member

theorem bind {f : α → Diagnosed ParseError β} (first : AboutData x)
    (second : AboutData (f x.value)) : AboutData (x >>= f) := by
  intro n member
  rw [notes_bind, List.mem_append] at member
  rcases member with early | late
  · exact first n early
  · exact second n late

theorem noteThen {f : Unit → Diagnosed ParseError α} (other : cause.isReading = false)
    (second : AboutData (f ())) : AboutData (note anchor cause >>= f) := by
  refine bind ?_ second
  intro n member
  rw [notes_note, List.mem_singleton] at member
  rw [member, other]

theorem sequence {xs : List (Diagnosed ParseError α)} (each : ∀ x ∈ xs, AboutData x) :
    AboutData (Diagnosed.sequence xs) := by
  intro n member
  rw [notes_sequence, List.mem_flatMap] at member
  obtain ⟨x, found, within⟩ := member
  exact each x found n within

theorem filter_notes (about : AboutData x) : x.notes.filter (·.cause.isReading) = [] := by
  rw [List.filter_eq_nil_iff]
  intro n member
  rw [about n member]
  exact Bool.false_ne_true

end AboutData

end Diagnosed

open Diagnosed (AboutData)

/-! Types. -/

namespace Ty

theorem aboutData_malformed {anchor : Token} {cause : ParseError}
    (other : cause.isReading = false) : AboutData (malformed anchor cause) :=
  .noteThen other .pure

theorem aboutData_ofToken {token : Token} : AboutData (ofToken token) := by
  unfold ofToken
  dsimp only
  split
  · exact .pure
  · exact aboutData_malformed rfl

theorem aboutData_compound {opening : Token} {elems : List Datum} {types : List Parsed}
    (each : ∀ t ∈ types, AboutData t) : AboutData (compound opening elems types) := by
  have later (n : Nat) : ∀ t ∈ types.drop n, AboutData t := fun t member =>
    each t (List.mem_of_mem_drop member)
  unfold compound
  split
  next index _ =>
    have after := later (index + 1)
    split
    next result results =>
      rw [results] at after
      have before : AboutData (Diagnosed.sequence (types.take index)) :=
        .sequence fun t member => each t (List.mem_of_mem_take member)
      exact before.bind ((after result (by simp)).bind .pure)
    next => exact aboutData_malformed rfl
  next =>
    have after := later 1
    split
    next => exact aboutData_malformed rfl
    next =>
      split
      next elem _ parts =>
        rw [parts] at after
        exact (after elem (by simp)).bind .pure
      next elem _ parts =>
        rw [parts] at after
        exact (after elem (by simp)).bind .pure
      next left right _ parts =>
        rw [parts] at after
        exact (after left (by simp)).bind ((after right (by simp)).bind .pure)
      next => exact aboutData_malformed rfl

mutual

theorem aboutData_ofDatum : (d : Datum) → AboutData (ofDatum d)
  | .atom _ => aboutData_ofToken
  | .list _ elems => aboutData_compound (aboutData_ofEach elems)

theorem aboutData_ofEach : (ds : List Datum) → ∀ t ∈ ofEach ds, AboutData t
  | [] => by simp [ofEach]
  | d :: ds => List.forall_mem_cons.mpr ⟨aboutData_ofDatum d, aboutData_ofEach ds⟩

end

end Ty

/-! Expressions. -/

namespace Expr

variable {opening anchor token : Token} {cause : ParseError} {ds : List Datum}

theorem aboutData_malformed (other : cause.isReading = false) :
    AboutData (malformed anchor cause) :=
  .noteThen other .pure

theorem aboutData_malformedForm (other : cause.isReading = false) :
    AboutData (malformedForm opening anchor cause) :=
  .noteThen other .pure

theorem aboutData_giveUp {α : Type} (other : cause.isReading = false) :
    AboutData (giveUp anchor cause : Diagnosed ParseError (Except ParseError α)) :=
  .noteThen other .pure

theorem aboutData_ofToken : AboutData (ofToken token) := by
  unfold ofToken
  split
  next =>
    split
    · exact .pure
    · exact aboutData_malformed rfl
  · exact .pure
  · exact .pure
  · exact .pure
  · exact .pure
  · exact aboutData_malformed rfl
  · exact aboutData_malformed rfl

theorem aboutData_param {lambda : Token} {d : Datum} : AboutData (param lambda d) := by
  cases d with
  | atom token => exact .noteThen rfl .pure
  | list opening elems =>
    unfold param
    rcases elems with _ | ⟨name, rest⟩
    · exact .noteThen rfl .pure
    dsimp only
    split
    next =>
      rcases rest with _ | ⟨colon, rest⟩
      · exact .noteThen rfl .pure
      dsimp only
      split
      next =>
        rcases rest with _ | ⟨type, _ | ⟨extra, rest⟩⟩
        · exact .noteThen rfl .pure
        · exact (Ty.aboutData_ofDatum type).bind .pure
        · exact (Ty.aboutData_ofDatum type).bind (.noteThen rfl .pure)
      next => exact .noteThen rfl .pure
    next => exact .noteThen rfl .pure

theorem aboutData_params {lambda : Token} : AboutData (params lambda ds) := by
  induction ds with
  | nil => exact .pure
  | cons d ds ih =>
    rw [params]
    refine aboutData_param.bind ?_
    split
    next => exact .pure
    next =>
      refine ih.bind ?_
      split <;> exact .pure

theorem aboutData_ofData (each : ∀ d ∈ ds, AboutData (ofDatum d)) : AboutData (ofData ds) := by
  induction ds with
  | nil => exact .pure
  | cons d ds ih =>
    obtain ⟨first, rest⟩ := List.forall_mem_cons.mp each
    rw [ofData]
    exact first.bind ((ih rest).bind .pure)

theorem isReading_valueCount {form : BindingForm} {name : String} :
    (valueCount form name).isReading = false := by
  cases form <;> rfl

theorem aboutData_binding {form : BindingForm} {head : String} {start : Token}
    (parts : ∀ d ∈ ds, AboutData (ofDatum d)) :
    AboutData (binding form head start opening ds) := by
  rcases ds with _ | ⟨name, rest⟩
  · exact aboutData_giveUp rfl
  unfold binding
  dsimp only
  split
  next =>
    rcases rest with _ | ⟨next, rest⟩
    · exact aboutData_giveUp isReading_valueCount
    dsimp only
    split
    next =>
      rcases rest with _ | ⟨type, _ | ⟨value, _ | ⟨extra, rest⟩⟩⟩
      · exact aboutData_giveUp rfl
      · exact (Ty.aboutData_ofDatum type).bind (aboutData_giveUp isReading_valueCount)
      · have valueAbout := parts value (by simp)
        exact (Ty.aboutData_ofDatum type).bind (valueAbout.bind .pure)
      · exact (Ty.aboutData_ofDatum type).bind (aboutData_giveUp isReading_valueCount)
    next =>
      rcases rest with _ | ⟨extra, rest⟩
      · dsimp only
        split
        · exact aboutData_giveUp rfl
        · exact (parts next (by simp)).bind .pure
      · exact aboutData_giveUp isReading_valueCount
  next => exact aboutData_giveUp rfl

theorem aboutData_bindings {form : BindingForm} {head : String}
    (parts : ∀ opening elems, .list opening elems ∈ ds → ∀ d ∈ elems, AboutData (ofDatum d)) :
    AboutData (bindings form head ds) := by
  induction ds with
  | nil => exact .pure
  | cons d ds ih =>
    cases d with
    | atom token => exact aboutData_giveUp rfl
    | list opening elems =>
      have rest := ih fun opening elems member => parts opening elems (by simp [member])
      rw [bindings]
      refine (aboutData_binding (parts opening elems (by simp))).bind ?_
      split
      next => exact .pure
      next =>
        refine rest.bind ?_
        split <;> exact .pure

theorem aboutData_list {head : Datum} {args : List Datum}
    (smaller : ∀ d, sizeOf d < sizeOf (Datum.list opening (head :: args)) →
      AboutData (ofDatum d)) :
    AboutData (ofDatum (.list opening (head :: args))) := by
  have first := smaller head (Datum.sizeOf_lt_of_mem List.mem_cons_self)
  have parts : ∀ d ∈ args, AboutData (ofDatum d) := fun d member =>
    smaller d (Datum.sizeOf_lt_of_mem (List.mem_cons_of_mem _ member))
  -- the values of bindings stand two lists deeper than the operands
  have boundParts : ∀ left group, .list left group ∈ args → ∀ form name,
      AboutData (bindings form name group) := by
    intro left group member form name
    refine aboutData_bindings fun inner elems within d part => smaller d ?_
    exact Nat.lt_trans (Datum.sizeOf_lt_of_mem part) (Nat.lt_trans
      (Datum.sizeOf_lt_of_mem within)
      (Datum.sizeOf_lt_of_mem (List.mem_cons_of_mem _ member)))
  unfold ofDatum
  dsimp only
  cases Head.ofDatum head with
  | add => exact (aboutData_ofData parts).bind .pure
  | operator => exact first.bind ((aboutData_ofData parts).bind .pure)
  | define | misplaced => exact aboutData_malformed rfl
  | binary op =>
    dsimp only
    split
    next left right =>
      exact (parts left (by simp)).bind ((parts right (by simp)).bind .pure)
    next => exact aboutData_malformedForm rfl
  | unary op =>
    dsimp only
    split
    next operand => exact (parts operand (by simp)).bind .pure
    next => exact aboutData_malformedForm rfl
  | branch =>
    dsimp only
    split
    next cond yes no =>
      exact (parts cond (by simp)).bind
        ((parts yes (by simp)).bind ((parts no (by simp)).bind .pure))
    next => exact aboutData_malformedForm rfl
  | letIn | letrec =>
    dsimp only
    split
    next => exact aboutData_malformedForm rfl
    next left group body =>
      refine (boundParts left group (by simp) _ _).bind ?_
      split
      next => exact .pure
      next => exact (parts body (by simp)).bind .pure
    next => exact aboutData_malformedForm rfl
  | lambda =>
    dsimp only
    split
    next => exact aboutData_malformed rfl
    next left group body =>
      refine aboutData_params.bind ?_
      split
      next => exact .pure
      next => exact (parts body (by simp)).bind .pure
    next => exact aboutData_malformedForm rfl
  | list =>
    rcases args with _ | ⟨first, _ | ⟨type, rest⟩⟩
    · exact .pure
    · dsimp only
      split
      next => exact aboutData_malformed rfl
      next => exact (parts first (by simp)).bind ((aboutData_ofData (by simp)).bind .pure)
    · dsimp only
      split
      next =>
        have restAbout := @aboutData_ofData rest fun d member => parts d (by simp [member])
        exact (Ty.aboutData_ofDatum type).bind (restAbout.bind .pure)
      next =>
        have restAbout := @aboutData_ofData (type :: rest) fun d member =>
          parts d (List.mem_cons_of_mem _ member)
        exact (parts first (by simp)).bind (restAbout.bind .pure)
  | read =>
    dsimp only
    split
    next => exact .pure
    next source => exact (parts source (by simp)).bind .pure
    next => exact aboutData_malformed rfl

theorem aboutData_ofDatum (d : Datum) : AboutData (ofDatum d) := by
  induction d using Datum.induction with
  | atom token => exact aboutData_ofToken
  | list opening elems ih =>
    cases elems with
    | nil => exact aboutData_malformed rfl
    | cons head args => exact aboutData_list ih

end Expr

/-! Forms. -/

namespace Form

theorem aboutData_ofDatum {d : Datum} : AboutData (ofDatum d) := by
  unfold ofDatum
  split
  next opening head args _ =>
    refine AboutData.bind ?_ .pure
    refine (Expr.aboutData_binding fun d _ => Expr.aboutData_ofDatum d).bind ?_
    split <;> exact .pure
  next => exact (Expr.aboutData_ofDatum d).bind .pure

end Form

end TypedForms
