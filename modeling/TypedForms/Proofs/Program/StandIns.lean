import Mathlib.Data.List.NodupEquivFin
import TypedForms.Program.Parse
import TypedForms.Proofs.Datum
import TypedForms.Proofs.Diagnosed

/-! Stand-ins. What is not well formed is read as a stand-in that carries the message of a note: a
broken expression, or an erroneous type where a type is written. Every stand-in has a note of its
own, and the notes come in the order in which the stand-ins are met in the source. Notes on parts
that have been given up have no stand-in. -/
namespace TypedForms

/-! The messages of the stand-ins in a tree, in the order of the source. -/

namespace Ty

mutual

def standIns : Ty → List String
  | .unresolved | .num | .str | .bool | .unit => []
  | .error message => [message]
  | .func params result => standInsAll params ++ standIns result
  | .pair left right => standIns left ++ standIns right
  | .list elem | .ref elem => standIns elem

def standInsAll : List Ty → List String
  | [] => []
  | t :: ts => standIns t ++ standInsAll ts

end

def writtenStandIns : Option Ty → List String
  | none => []
  | some t => t.standIns

theorem standInsAll_eq {ts : List Ty} : standInsAll ts = ts.flatMap standIns := by
  induction ts with
  | nil => rfl
  | cons t ts ih => rw [standInsAll, ih, List.flatMap_cons]

end Ty

def Binder.standIns (b : Binder) : List String := Ty.writtenStandIns b.type

namespace Expr

mutual

def standIns : Expr → List String
  | .absent | .number .. | .string .. | .bool .. | .unit _ | .var .. | .read _ => []
  | .broken _ message => [message]
  | .add _ operands => standInsAll operands
  | .binary _ _ left right => standIns left ++ standIns right
  | .unary _ _ operand => standIns operand
  | .branch _ cond yes no => standIns cond ++ (standIns yes ++ standIns no)
  | .letIn _ bindings body | .letrec _ bindings body =>
    standInsBound bindings ++ standIns body
  | .lambda _ params body => params.flatMap Binder.standIns ++ standIns body
  | .call _ operator args => standIns operator ++ standInsAll args
  | .list _ elem elems => Ty.writtenStandIns elem ++ standInsAll elems
  | .readFrom _ source => standIns source

def standInsAll : List Expr → List String
  | [] => []
  | e :: es => standIns e ++ standInsAll es

def standInsBound : List (Binder × Expr) → List String
  | [] => []
  | (binder, value) :: rest =>
    (binder.standIns ++ standIns value) ++ standInsBound rest

end

end Expr

def Form.standIns : Form → List String
  | .define decl => decl.binder.standIns ++ decl.value.standIns
  | .expr e => e.standIns

/-! Notes that account for stand-ins. -/

namespace Diagnosed

variable {α β : Type} {x : Diagnosed ParseError α} {f : α → Diagnosed ParseError β}
  {messages more : List String} {anchor : Token} {cause : ParseError}

/-- The messages are among those of the notes, in the same order. -/
def Explains (x : Diagnosed ParseError α) (messages : List String) : Prop :=
  messages.Sublist (x.notes.map (·.message))

/-- What is listed of the result is explained by the notes. -/
def Accounts (listed : α → List String) (x : Diagnosed ParseError α) : Prop :=
  x.Explains (listed x.value)

namespace Explains

theorem nil : x.Explains [] := List.nil_sublist _

theorem bind (first : x.Explains messages) (second : (f x.value).Explains more) :
    (x >>= f).Explains (messages ++ more) := by
  rw [Explains, notes_bind, List.map_append]
  exact first.append second

theorem before (first : x.Explains messages) : (x >>= f).Explains messages := by
  have whole := first.bind (@nil β (f x.value))
  rwa [List.append_nil] at whole

/-- Notes on what is given up later are left out. -/
theorem after (second : (f x.value).Explains more) : (x >>= f).Explains more :=
  (@nil α x).bind second

/-- Where the result of the first step is known, so is the second step. -/
theorem bindOf {a : α} (first : x.Explains messages) (found : x.value = a)
    (second : (f a).Explains more) : (x >>= f).Explains (messages ++ more) :=
  first.bind (found ▸ second)

theorem note {f : Unit → Diagnosed ParseError α} :
    (Diagnosed.note anchor cause >>= f).Explains [cause.message] :=
  before (List.Sublist.refl _)

/-- Messages that are explained have notes of their own, in the same order. -/
theorem exists_notes (explained : x.Explains messages) :
    ∃ cause : Fin messages.length ↪o Fin x.notes.length,
      ∀ i, (x.notes.get (cause i)).message = messages.get i := by
  obtain ⟨causes, among, rfl⟩ := List.sublist_map_iff.mp explained
  obtain ⟨cause, found⟩ := List.sublist_iff_exists_fin_orderEmbedding_get_eq.mp among
  have same : (causes.map (·.message)).length = causes.length := List.length_map _
  refine ⟨(Fin.castOrderIso same).toOrderEmbedding.trans cause, ?_⟩
  intro i
  have foundAt := congrArg Diagnostic.message (found (i.cast same))
  simpa using foundAt.symm

end Explains

theorem Accounts.of_value {listed : α → List String} {a : α} (accounts : x.Accounts listed)
    (found : x.value = a) : x.Explains (listed a) :=
  found ▸ accounts

theorem Accounts.sequence {listed : α → List String} {xs : List (Diagnosed ParseError α)}
    (each : ∀ x ∈ xs, x.Accounts listed) :
    (Diagnosed.sequence xs).Accounts (List.flatMap listed) := by
  induction xs with
  | nil => exact .nil
  | cons x xs ih =>
    obtain ⟨first, rest⟩ := List.forall_mem_cons.mp each
    exact first.bind (ih rest).before

end Diagnosed

open Diagnosed (Accounts Explains)

/-! Types. -/

namespace Ty

theorem standIns_of_ofName? {name : String} {t : Ty} (found : ofName? name = some t) :
    t.standIns = [] := by
  unfold ofName? at found
  split at found <;> cases found <;> rfl

theorem accounts_ofToken {token : Token} : (ofToken token).Accounts standIns := by
  unfold ofToken
  dsimp only
  split
  next t found =>
    have sound : t.standIns = [] := by
      split at found
      next =>
        obtain rfl := Option.some.inj found
        rfl
      next => exact standIns_of_ofName? found
      next => cases found
    rw [Accounts, Diagnosed.value_pure, sound]
    exact .nil
  next => exact .note

theorem accounts_compound {opening : Token} {elems : List Datum} {types : List Parsed}
    (each : ∀ t ∈ types, t.Accounts standIns) :
    (compound opening elems types).Accounts standIns := by
  have later (n : Nat) : ∀ t ∈ types.drop n, t.Accounts standIns := fun t member =>
    each t (List.mem_of_mem_drop member)
  unfold compound
  split
  next index _ =>
    have after := later (index + 1)
    split
    next result results =>
      rw [results] at after
      have before : (Diagnosed.sequence (types.take index)).Explains
          (standInsAll (Diagnosed.sequence (types.take index)).value) := by
        rw [standInsAll_eq]
        exact Accounts.sequence fun t member => each t (List.mem_of_mem_take member)
      exact before.bind (after result (by simp)).before
    next => exact .note
  next =>
    have after := later 1
    split
    next => exact .note
    next =>
      split
      next elem _ parts =>
        rw [parts] at after
        exact (after elem (by simp)).before
      next elem _ parts =>
        rw [parts] at after
        exact (after elem (by simp)).before
      next left right _ parts =>
        rw [parts] at after
        exact (after left (by simp)).bind (after right (by simp)).before
      next => exact .note

mutual

theorem accounts_ofDatum : (d : Datum) → (ofDatum d).Accounts standIns
  | .atom _ => accounts_ofToken
  | .list _ elems => accounts_compound (accounts_ofEach elems)

theorem accounts_ofEach : (ds : List Datum) → ∀ t ∈ ofEach ds, t.Accounts standIns
  | [] => by simp [ofEach]
  | d :: ds => List.forall_mem_cons.mpr ⟨accounts_ofDatum d, accounts_ofEach ds⟩

end

end Ty

/-! Expressions. -/

namespace Expr

variable {opening token : Token} {ds : List Datum}

/-- What is listed of a part, or the reason why it has been given up. -/
def reasonOr {ε α : Type} (reason : ε → String) (listed : α → List String) :
    Except ε α → List String
  | .error cause => [reason cause]
  | .ok a => listed a

def bindingStandIns (bound : Binder × Expr) : List String :=
  bound.1.standIns ++ bound.2.standIns

theorem accounts_ofToken : (ofToken token).Accounts standIns := by
  unfold ofToken
  split
  next =>
    split
    · exact .nil
    · exact .note
  · exact .nil
  · exact .nil
  · exact .nil
  · exact .nil
  · exact .note
  · exact .note

theorem accounts_param {lambda : Token} {d : Datum} :
    (param lambda d).Accounts (reasonOr (·.2.message) Binder.standIns) := by
  cases d with
  | atom token => exact .note
  | list opening elems =>
    unfold param
    rcases elems with _ | ⟨name, rest⟩
    · exact .note
    dsimp only
    split
    next =>
      rcases rest with _ | ⟨colon, rest⟩
      · exact .note
      dsimp only
      split
      next =>
        rcases rest with _ | ⟨type, _ | ⟨extra, rest⟩⟩
        · exact .note
        · exact (Ty.accounts_ofDatum type).before
        · exact .after .note
      next => exact .note
    next => exact .note

theorem accounts_params {lambda : Token} :
    (params lambda ds).Accounts (reasonOr (·.2.message) (List.flatMap Binder.standIns)) := by
  induction ds with
  | nil => exact .nil
  | cons d ds ih =>
    have first : (param lambda d).Accounts _ := accounts_param
    rw [params, Accounts, Diagnosed.value_bind]
    split
    next problem failed => exact (first.of_value failed).before
    next binder found =>
      rw [Diagnosed.value_bind]
      split
      -- a parameter is given up with a later one that is not well formed
      next problem failed => exact Explains.nil.bindOf found (ih.of_value failed).before
      next binders listed =>
        exact (first.of_value found).bindOf found (ih.of_value listed).before

theorem accounts_ofData (each : ∀ d ∈ ds, (ofDatum d).Accounts standIns) :
    (ofData ds).Accounts standInsAll := by
  induction ds with
  | nil => exact .nil
  | cons d ds ih =>
    obtain ⟨first, rest⟩ := List.forall_mem_cons.mp each
    rw [ofData]
    exact first.bind (ih rest).before

theorem accounts_binding {form : BindingForm} {head : String} {start : Token}
    (parts : ∀ d ∈ ds, (ofDatum d).Accounts standIns) :
    (binding form head start opening ds).Accounts
      (reasonOr ParseError.message bindingStandIns) := by
  rcases ds with _ | ⟨name, rest⟩
  · exact .note
  unfold binding
  dsimp only
  split
  next =>
    rcases rest with _ | ⟨next, rest⟩
    · exact .note
    dsimp only
    split
    next =>
      rcases rest with _ | ⟨type, _ | ⟨value, _ | ⟨extra, rest⟩⟩⟩
      · exact .note
      · exact .after .note
      · exact (Ty.accounts_ofDatum type).bind (parts value (by simp)).before
      · exact .after .note
    next =>
      rcases rest with _ | ⟨extra, rest⟩
      · dsimp only
        split
        · exact .note
        · exact (parts next (by simp)).before
      · exact .note
  next => exact .note

theorem accounts_bindings {form : BindingForm} {head : String}
    (parts : ∀ opening elems, .list opening elems ∈ ds →
      ∀ d ∈ elems, (ofDatum d).Accounts standIns) :
    (bindings form head ds).Accounts (reasonOr ParseError.message standInsBound) := by
  induction ds with
  | nil => exact .nil
  | cons d ds ih =>
    cases d with
    | atom token => exact .note
    | list opening elems =>
      have first : (binding form head opening opening elems).Accounts _ :=
        accounts_binding (parts opening elems (by simp))
      have rest := ih fun opening elems member => parts opening elems (by simp [member])
      rw [bindings, Accounts, Diagnosed.value_bind]
      split
      next problem failed => exact (first.of_value failed).before
      next bound found =>
        rw [Diagnosed.value_bind]
        split
        next problem failed =>
          exact Explains.nil.bindOf found (rest.of_value failed).before
        next others listed =>
          exact (first.of_value found).bindOf found (rest.of_value listed).before

theorem accounts_list {head : Datum} {args : List Datum}
    (smaller : ∀ d, sizeOf d < sizeOf (Datum.list opening (head :: args)) →
      (ofDatum d).Accounts standIns) :
    (ofDatum (.list opening (head :: args))).Accounts standIns := by
  have first := smaller head (Datum.sizeOf_lt_of_mem List.mem_cons_self)
  have parts : ∀ d ∈ args, (ofDatum d).Accounts standIns := fun d member =>
    smaller d (Datum.sizeOf_lt_of_mem (List.mem_cons_of_mem _ member))
  -- the values of bindings stand two lists deeper than the operands
  have boundParts : ∀ left group, .list left group ∈ args → ∀ form name,
      (bindings form name group).Accounts (reasonOr ParseError.message standInsBound) := by
    intro left group member form name
    apply accounts_bindings
    intro inner elems within d part
    apply smaller d
    exact Nat.lt_trans (Datum.sizeOf_lt_of_mem part) (Nat.lt_trans
      (Datum.sizeOf_lt_of_mem within)
      (Datum.sizeOf_lt_of_mem (List.mem_cons_of_mem _ member)))
  unfold ofDatum
  dsimp only
  cases Head.ofDatum head with
  | add => exact (accounts_ofData parts).before
  | operator => exact first.bind (accounts_ofData parts).before
  | define | misplaced => exact .note
  | binary op =>
    dsimp only
    split
    next left right => exact (parts left (by simp)).bind (parts right (by simp)).before
    next => exact .note
  | unary op =>
    dsimp only
    split
    next operand => exact (parts operand (by simp)).before
    next => exact .note
  | branch =>
    dsimp only
    split
    next cond yes no =>
      exact (parts cond (by simp)).bind ((parts yes (by simp)).bind (parts no (by simp)).before)
    next => exact .note
  | letIn | letrec =>
    dsimp only
    split
    next => exact .note
    next left group body =>
      have bound := boundParts left group (by simp)
      rw [Accounts, Diagnosed.value_bind]
      split
      next cause failed => exact ((bound _ _).of_value failed).before
      next bindings found =>
        exact ((bound _ _).of_value found).bindOf found (parts body (by simp)).before
    next => exact .note
  | lambda =>
    dsimp only
    split
    next => exact .note
    next left group body =>
      have binders : (params opening group).Accounts _ := accounts_params
      rw [Accounts, Diagnosed.value_bind]
      split
      next token cause failed => exact (binders.of_value failed).before
      next params found =>
        exact (binders.of_value found).bindOf found (parts body (by simp)).before
    next => exact .note
  | list =>
    rcases args with _ | ⟨first, _ | ⟨type, rest⟩⟩
    · exact .nil
    · dsimp only
      split
      next => exact .note
      next => exact (parts first (by simp)).bind (accounts_ofData (by simp)).before
    · dsimp only
      split
      next =>
        have restAccounts := @accounts_ofData rest fun d member => parts d (by simp [member])
        exact (Ty.accounts_ofDatum type).bind restAccounts.before
      next =>
        have restAccounts := @accounts_ofData (type :: rest) fun d member =>
          parts d (List.mem_cons_of_mem _ member)
        exact (parts first (by simp)).bind restAccounts.before
  | read =>
    dsimp only
    split
    next => exact .nil
    next source => exact (parts source (by simp)).before
    next => exact .note

theorem accounts_ofDatum (d : Datum) : (ofDatum d).Accounts standIns := by
  induction d using Datum.induction with
  | atom token => exact accounts_ofToken
  | list opening elems ih =>
    cases elems with
    | nil => exact .note
    | cons head args => exact accounts_list ih

end Expr

/-! Forms. -/

namespace Form

/-- A form that is left out has no stand-ins. -/
def standInsOf : Option Form → List String
  | none => []
  | some form => form.standIns

theorem accounts_ofParts {opening head : Token} {args : List Datum} :
    (Decl.ofParts opening head args).Accounts (standInsOf ∘ Option.map .define) := by
  have bound : (Expr.binding .define head.literal head opening args).Accounts _ :=
    Expr.accounts_binding fun d _ => Expr.accounts_ofDatum d
  rw [Decl.ofParts, Accounts, Diagnosed.value_bind]
  split
  next => exact .nil
  next binder value found => exact (bound.of_value found).before

theorem accounts_ofDatum {d : Datum} : (ofDatum d).Accounts standInsOf := by
  unfold ofDatum
  split
  next => exact accounts_ofParts.before
  next => exact (Expr.accounts_ofDatum d).before

theorem accounts_ofItem {item : Item} : (ofItem item).Accounts standInsOf := by
  cases item with
  | stray token => exact .nil
  | form datum unclosed => exact .after accounts_ofDatum

theorem flatMap_standIns {forms : List (Option Form)} :
    (forms.filterMap id).flatMap standIns = forms.flatMap standInsOf := by
  induction forms with
  | nil => rfl
  | cons form forms ih =>
    cases form with
    | none => exact ih
    | some form => exact congrArg (form.standIns ++ ·) ih

theorem accounts_ofItems {items : List Item} :
    (ofItems items).Accounts (List.flatMap standIns) := by
  have each : (Diagnosed.sequence (items.map ofItem)).Accounts (List.flatMap standInsOf) := by
    apply Accounts.sequence
    intro x member
    obtain ⟨item, _, rfl⟩ := List.mem_map.mp member
    exact accounts_ofItem
  rw [Accounts, ← flatMap_standIns] at each
  exact each.before

/-- The messages of the stand-ins in a source are, in the order of the source, among the messages
of its notes. So there are notes, one for each stand-in and in the same order, from which the
stand-ins have their messages. -/
theorem standIns_have_notes_of_their_own (file source : String) :
    (((ofStream (.ofSource file source)).value.flatMap standIns).Sublist
        ((ofStream (.ofSource file source)).notes.map (·.message))) ∧
      ∃ cause : Fin ((ofStream (.ofSource file source)).value.flatMap standIns).length ↪o
          Fin (ofStream (.ofSource file source)).notes.length,
        ∀ i, ((ofStream (.ofSource file source)).notes.get (cause i)).message =
          ((ofStream (.ofSource file source)).value.flatMap standIns).get i :=
  ⟨accounts_ofItems, Explains.exists_notes accounts_ofItems⟩

-- the bindings before the one that is not well formed are given up with it
example :
    (ofStream (.ofSource "main" "(let ((y (cdr)) (z : word)) y)")).value.flatMap standIns =
        ["binding of z needs exactly one value"] ∧
      (ofStream (.ofSource "main" "(let ((y (cdr)) (z : word)) y)")).notes.map (·.message) =
        ["cdr expects 1 operand(s), got 0", "unknown type \"word\"",
          "binding of z needs exactly one value"] := by
  decide +kernel

end Form

end TypedForms
