import TypedForms.Program.Parse
import TypedForms.Proofs.Strict.Ty

/-! Expressions and definitions are read with partial operations in the open: elements of a form
are taken by their places, after they have been counted; a name is looked at after it has been
found; and the message of a broken expression is that of the note made last. -/
namespace TypedForms

open Guarded

namespace Expr.Strict

def bad (anchor : Token) (cause : ParseError) : Guarded ParseError Expr := do
  total (Diagnosed.note anchor cause)
  let message ← lastMessage
  pure (.broken anchor message)

/-- The expression in the place of a form whose problem has been noted. -/
def placeholder (opening : Token) : Guarded ParseError Expr := do
  let message ← lastMessage
  pure (.broken opening message)

def ofAtom (token : Token) : Guarded ParseError Expr :=
  match token.kind with
  | .number =>
    match Binary64.ofLiteral? token.literal.toList with
    | some value => pure (.number token value)
    | none => bad token (.badNumber token.literal)
  | .string => pure (.string token token.literal)
  | .bool => pure (.bool token (token.literal == "#t"))
  | .keyword .unit => pure (.unit token)
  | .ident => pure (.var token token.literal)
  | .illegal => bad token (.illegalToken token.literal)
  | _ => bad token (.outsideForm token.literal)

/-- The token that a form is named by. -/
def headToken (opening : Token) (elems : List Datum) : Guarded ParseError Token :=
  if elems.length = 0 then pure opening
  else do
    let head ← demand elems[0]?
    pure head.token

/-- Whether a form has as many operands as it should. -/
def arity (opening : Token) (elems : List Datum) (expected : Nat) : Guarded ParseError Bool := do
  if elems.length - 1 = expected then pure true
  else
    let head ← headToken opening elems
    total (Diagnosed.note head (.operandCount head.literal expected (elems.length - 1)))
    pure false

def startsWith (kind : Token.Kind) (ds : List Datum) : Guarded ParseError Bool :=
  if ds.length = 0 then pure false
  else do
    let first ← demand ds[0]?
    pure (first.isAtom kind)

/-- What stands at the start of a binding or a parameter. Where it is not well formed there is no
name to be looked at. -/
structure Named where
  ok : Bool
  name : Option Token
  type : Option Ty
  rest : List Datum

def Named.failed : Named := ⟨false, none, none, []⟩

def named (start : Token) (ds : List Datum) : Guarded ParseError Named := do
  if ← startsWith .ident ds then
    let name ← demand ds[0]?
    let rest ← dropFirst 1 ds
    if ← startsWith (.mark .colon) rest then
      if rest.length < 2 then
        let colon ← demand rest[0]?
        total (Diagnosed.note colon.token .missingType)
        pure .failed
      else
        let type ← demand rest[1]?
        let type ← Ty.Strict.ofDatum type
        let rest ← dropFirst 2 rest
        pure ⟨true, some name.token, some type, rest⟩
    else pure ⟨true, some name.token, none, rest⟩
  else
    let start ← headToken start ds
    total (Diagnosed.note start .expectedName)
    pure .failed

/-- A parameter, or the expression in the place of the function it breaks. -/
def param (lambda : Token) : Datum → Guarded ParseError (Except Expr Binder)
  | .atom token => .error <$> bad token (.untypedParameter token.literal)
  | .list opening elems => do
    let found ← named opening elems
    if found.ok then
      if found.type.isNone || found.rest.length ≠ 0 then .error <$> bad opening .parameterShape
      else
        let name ← demand found.name
        pure (.ok ⟨name, name.literal, found.type⟩)
    else .error <$> placeholder lambda

def params (lambda : Token) : List Datum → Guarded ParseError (Except Expr (List Binder))
  | [] => pure (.ok [])
  | d :: ds => do
    match ← param lambda d with
    | .error e => pure (.error e)
    | .ok binder =>
      match ← params lambda ds with
      | .error e => pure (.error e)
      | .ok binders => pure (.ok (binder :: binders))

section

variable (parse : Datum → Guarded ParseError Expr)

def ofAll : List Datum → Guarded ParseError (List Expr)
  | [] => pure []
  | d :: ds => do
    let e ← parse d
    let es ← ofAll ds
    pure (e :: es)

/-- The element at a place, read as an expression. -/
def ofPlace (elems : List Datum) (index : Nat) : Guarded ParseError Expr := do
  let d ← demand elems[index]?
  parse d

def binding (form : BindingForm) (head : String) (start opening : Token) (ds : List Datum) :
    Guarded ParseError (Option (Binder × Expr)) := do
  let found ← named start ds
  if found.ok then
    let name ← demand found.name
    if found.rest.length ≠ 1 then
      total (Diagnosed.note opening (valueCount form name.literal))
      pure none
    else if form = .letrec && found.type.isNone then
      total (Diagnosed.note name (.untypedBinding head name.literal))
      pure none
    else
      let value ← ofPlace parse found.rest 0
      pure (some (⟨name, name.literal, found.type⟩, value))
  else pure none

def bindings (form : BindingForm) (head : String) :
    List Datum → Guarded ParseError (Option (List (Binder × Expr)))
  | [] => pure (some [])
  | .atom token :: _ => do
    total (Diagnosed.note token .bindingShape)
    pure none
  | .list opening elems :: rest => do
    match ← binding parse form head opening opening elems with
    | none => pure none
    | some first =>
      match ← bindings form head rest with
      | none => pure none
      | some others => pure (some (first :: others))

def binary (op : BinaryOp) (opening : Token) (elems : List Datum) : Guarded ParseError Expr := do
  if ← arity opening elems 2 then
    let left ← ofPlace parse elems 1
    let right ← ofPlace parse elems 2
    pure (.binary opening op left right)
  else placeholder opening

def unary (op : UnaryOp) (opening : Token) (elems : List Datum) : Guarded ParseError Expr := do
  if ← arity opening elems 1 then
    let operand ← ofPlace parse elems 1
    pure (.unary opening op operand)
  else placeholder opening

def branch (opening : Token) (elems : List Datum) : Guarded ParseError Expr := do
  if ← arity opening elems 3 then
    let cond ← ofPlace parse elems 1
    let yes ← ofPlace parse elems 2
    let no ← ofPlace parse elems 3
    pure (.branch opening cond yes no)
  else placeholder opening

/-- A `let` or a `letrec`. -/
def binder (form : BindingForm) (make : List (Binder × Expr) → Expr → Expr) (opening : Token)
    (elems : List Datum) : Guarded ParseError Expr := do
  if ← arity opening elems 2 then
    let head ← headToken opening elems
    let group ← demand elems[1]?
    match group with
    | .atom token => do
      total (Diagnosed.note token (.bindingList head.literal))
      placeholder opening
    | .list _ group => do
      match ← bindings parse form head.literal group with
      | none => placeholder opening
      | some bound => do
        let body ← ofPlace parse elems 2
        pure (make bound body)
  else placeholder opening

def lambda (opening : Token) (elems : List Datum) : Guarded ParseError Expr := do
  if ← arity opening elems 2 then
    let group ← demand elems[1]?
    match group with
    | .atom token => bad token .parameterList
    | .list _ group => do
      match ← params opening group with
      | .error e => pure e
      | .ok binders => do
        let body ← ofPlace parse elems 2
        pure (.lambda opening binders body)
  else placeholder opening

def list (opening : Token) (elems : List Datum) : Guarded ParseError Expr := do
  let rest ← dropFirst 1 elems
  if ← startsWith (.mark .colon) rest then
    if rest.length < 2 then
      let colon ← demand rest[0]?
      bad colon.token .missingElementType
    else
      let type ← demand rest[1]?
      let type ← Ty.Strict.ofDatum type
      let rest ← dropFirst 2 rest
      let elems ← ofAll parse rest
      pure (.list opening (some type) elems)
  else
    let elems ← ofAll parse rest
    pure (.list opening none elems)

def read (opening : Token) (elems : List Datum) : Guarded ParseError Expr :=
  match elems.length with
  | 1 => pure (.read opening)
  | 2 => do
    let source ← ofPlace parse elems 1
    pure (.readFrom opening source)
  | _ => do
    let head ← headToken opening elems
    bad head (.readOperandCount (elems.length - 1))

def form (opening : Token) (elems : List Datum) : Guarded ParseError Expr :=
  if elems.length = 0 then bad opening .emptyForm
  else do
    let head ← demand elems[0]?
    match Head.ofDatum head with
    | .add => do
      let args ← dropFirst 1 elems
      let operands ← ofAll parse args
      pure (.add opening operands)
    | .binary op => binary parse op opening elems
    | .unary op => unary parse op opening elems
    | .branch => branch parse opening elems
    | .letIn => binder parse .letIn (.letIn opening) opening elems
    | .letrec => binder parse .letrec (.letrec opening) opening elems
    | .lambda => lambda parse opening elems
    | .list => list parse opening elems
    | .read => read parse opening elems
    | .define => bad opening .nestedDefine
    | .misplaced => bad head.token (.formStart head.token.literal)
    | .operator => do
      let operator ← parse head
      let args ← dropFirst 1 elems
      let args ← ofAll parse args
      pure (.call opening operator args)

end

/-- Reads a datum in so many rounds, one for each level of lists. -/
def round : Nat → Datum → Guarded ParseError Expr
  | 0, _ => stop
  | _ + 1, .atom token => ofAtom token
  | rounds + 1, .list opening elems => form (round rounds) opening elems

def ofDatum (d : Datum) : Guarded ParseError Expr := round d.depth d

end Expr.Strict

namespace Expr

theorem bad_eq {anchor : Token} {cause : ParseError} :
    Strict.bad anchor cause = total (malformed anchor cause) := by
  unfold Strict.bad
  rw [total_bind_lastMessage rfl]
  exact total_bind total_pure.symm

/-- A placeholder repeats the message of the note made last. -/
theorem total_bind_placeholder {α : Type} {x : Diagnosed ParseError α} {opening anchor : Token}
    {cause : ParseError} (last : x.notes.getLast? = some ⟨anchor, cause⟩) :
    (total x >>= fun _ => Strict.placeholder opening) =
      total (x >>= fun _ => pure (.broken opening cause.message)) := by
  unfold Strict.placeholder
  rw [total_bind_lastMessage last]
  exact total_bind total_pure.symm

theorem ofAtom_eq {token : Token} : Strict.ofAtom token = total (ofToken token) := by
  unfold Strict.ofAtom ofToken
  cases token.kind with
  | number =>
    dsimp only
    cases Binary64.ofLiteral? token.literal.toList with
    | some value => exact total_pure.symm
    | none => exact bad_eq
  | string | bool | ident => exact total_pure.symm
  | keyword word =>
    cases word with
    | unit => exact total_pure.symm
    | _ => exact bad_eq
  | _ => exact bad_eq

@[simp] theorem headToken_nil {opening : Token} : Strict.headToken opening [] = pure opening := rfl

@[simp] theorem headToken_cons {opening : Token} {head : Datum} {args : List Datum} :
    Strict.headToken opening (head :: args) = pure head.token := by
  simp [Strict.headToken]

@[simp] theorem startsWith_nil {kind : Token.Kind} : Strict.startsWith kind [] = pure false := rfl

@[simp] theorem startsWith_cons {kind : Token.Kind} {d : Datum} {ds : List Datum} :
    Strict.startsWith kind (d :: ds) = pure (d.isAtom kind) := by
  simp [Strict.startsWith]

/-- The operands are counted before any of them is looked at. -/
theorem arity_bind {opening : Token} {head : Datum} {args : List Datum} {expected : Nat}
    {x : Guarded ParseError Expr} :
    (Strict.arity opening (head :: args) expected >>= fun ok =>
      if ok = true then x else Strict.placeholder opening) =
      if args.length = expected then x
      else total (malformedForm opening head.token
        (.operandCount head.token.literal expected args.length)) := by
  unfold Strict.arity
  by_cases count : args.length = expected
  · simp [count]
  · simp only [List.length_cons, Nat.add_sub_cancel, count, if_false, headToken_cons, pure_bind,
      bind_assoc, Bool.false_eq_true]
    exact total_bind_placeholder rfl

/-- The name and the written type at the start of a binding or a parameter. -/
def namedPart (start : Token) : List Datum → Diagnosed ParseError Strict.Named
  | [] => do
    Diagnosed.note start .expectedName
    pure .failed
  | name :: rest =>
    if name.isAtom .ident then
      match rest with
      | [] => pure ⟨true, some name.token, none, []⟩
      | next :: rest =>
        if next.isAtom (.mark .colon) then
          match rest with
          | [] => do
            Diagnosed.note next.token .missingType
            pure .failed
          | type :: rest => do
            let type ← Ty.ofDatum type
            pure ⟨true, some name.token, some type, rest⟩
        else pure ⟨true, some name.token, none, next :: rest⟩
    else do
      Diagnosed.note name.token .expectedName
      pure .failed

theorem ofDatum_type_eq {d : Datum} : Ty.Strict.ofDatum d = total (Ty.ofDatum d) :=
  Ty.round_eq (Nat.le_refl _)

theorem named_eq {start : Token} {ds : List Datum} :
    Strict.named start ds = total (namedPart start ds) := by
  unfold Strict.named namedPart
  cases ds with
  | nil =>
    simp only [startsWith_nil, pure_bind, Bool.false_eq_true, if_false, headToken_nil]
    exact total_bind total_pure.symm
  | cons name rest =>
    cases isName : name.isAtom .ident with
    | false =>
      simp only [startsWith_cons, isName, pure_bind, Bool.false_eq_true, if_false, headToken_cons]
      exact total_bind total_pure.symm
    | true =>
      simp only [startsWith_cons, isName, pure_bind, if_true, List.getElem?_cons_zero, demand_some,
        dropFirst, List.length_cons, Nat.le_add_left, List.drop_succ_cons, List.drop_zero]
      cases rest with
      | nil => simp
      | cons next rest =>
        cases isColon : next.isAtom (.mark .colon) with
        | false => simp [isColon]
        | true =>
          simp only [startsWith_cons, isColon, pure_bind, if_true]
          cases rest with
          | nil =>
            rw [if_pos (by simp)]
            simp only [List.getElem?_cons_zero, demand_some, pure_bind]
            exact total_bind total_pure.symm
          | cons type rest =>
            rw [if_neg (by simp)]
            simp only [List.getElem?_cons_succ, List.getElem?_cons_zero, demand_some, pure_bind,
              ofDatum_type_eq, List.length_cons, Nat.le_add_left, if_true, List.drop_succ_cons,
              List.drop_zero]
            exact total_bind total_pure.symm

section

variable {parse : Datum → Guarded ParseError Expr}

theorem ofPlace_eq {ds : List Datum} {d : Datum} {index : Nat} (found : ds[index]? = some d)
    (reads : parse d = total (ofDatum d)) :
    Strict.ofPlace parse ds index = total (ofDatum d) := by
  simp [Strict.ofPlace, found, reads]

theorem ofAll_eq {ds : List Datum} (reads : ∀ d ∈ ds, parse d = total (ofDatum d)) :
    Strict.ofAll parse ds = total (ofData ds) := by
  induction ds with
  | nil => exact total_pure.symm
  | cons d ds ih =>
    have rest := ih fun d member => reads d (List.mem_cons_of_mem _ member)
    rw [Strict.ofAll, reads d List.mem_cons_self, rest]
    exact total_bind (total_bind total_pure.symm)

/-- A problem that has been noted leaves no result. -/
theorem note_none {α : Type} {anchor : Token} {cause : ParseError} :
    (total (Diagnosed.note anchor cause) >>= fun _ => pure none) =
      total (Except.toOption <$> (giveUp anchor cause : Diagnosed ParseError (Except _ α))) := by
  refine total_bind_eq (g := fun _ => pure none) total_pure.symm ?_
  apply Diagnosed.ext <;> simp [giveUp, Except.toOption]

theorem note_failed {α : Type} {anchor : Token} {cause : ParseError}
    {f : Strict.Named → Guarded ParseError (Option α)} (failed : f .failed = pure none) :
    total (do Diagnosed.note anchor cause; pure Strict.Named.failed) >>= f =
      total (Except.toOption <$> (giveUp anchor cause : Diagnosed ParseError (Except _ α))) := by
  refine total_bind_eq (g := fun _ => pure none) (failed.trans total_pure.symm) ?_
  apply Diagnosed.ext <;> simp [giveUp, Except.toOption]

theorem binding_eq {form : BindingForm} {head : String} {start opening : Token} {ds : List Datum}
    (reads : ∀ d ∈ ds, parse d = total (ofDatum d)) :
    Strict.binding parse form head start opening ds =
      total (Except.toOption <$> binding form head start opening ds) := by
  unfold Strict.binding
  rw [named_eq]
  cases ds with
  | nil => exact note_failed rfl
  | cons name rest =>
    rw [binding]
    simp only [namedPart]
    cases isName : name.isAtom .ident with
    | false =>
      simp only [Bool.false_eq_true, if_false]
      exact note_failed rfl
    | true =>
      simp only [if_true]
      cases rest with
      | nil =>
        simp only [total_pure, pure_bind, demand_some]
        exact note_none
      | cons next rest =>
        cases isColon : next.isAtom (.mark .colon) with
        | false =>
          simp only [isColon, Bool.false_eq_true, if_false, if_true, total_pure, pure_bind,
            demand_some]
          cases rest with
          | nil =>
            have value := @ofPlace_eq parse [next] next 0 rfl (reads next (by simp))
            by_cases recursive : form = .letrec
            · subst recursive
              exact note_none
            · simp only [recursive, List.length_singleton, ne_eq, not_true_eq_false, if_false,
                decide_false, Bool.false_and, Bool.false_eq_true, value]
              refine total_bind_eq (g := fun value =>
                pure (some (⟨name.token, name.token.literal, none⟩, value))) total_pure.symm ?_
              apply Diagnosed.ext <;> simp [Except.toOption]
          | cons => exact note_none
        | true =>
          simp only [isColon, if_true]
          cases rest with
          | nil => exact note_failed rfl
          | cons type rest =>
            rcases rest with _ | ⟨value, _ | ⟨extra, rest⟩⟩
            · refine total_bind_eq (g := fun _ => Except.toOption <$> giveUp opening _) note_none ?_
              apply Diagnosed.ext <;> simp
            · have valueEq := @ofPlace_eq parse [value] value 0 rfl (reads value (by simp))
              refine total_bind_eq (g := fun found => do
                let value ← ofDatum value
                pure (some (⟨name.token, name.token.literal, found.type⟩, value))) ?_ ?_
              · simp only [Diagnosed.value_bind, Diagnosed.value_pure, if_true, demand_some,
                  pure_bind, List.length_singleton, ne_eq, not_true_eq_false, if_false,
                  Option.isNone_some, Bool.and_false, Bool.false_eq_true, valueEq]
                exact total_bind total_pure.symm
              · apply Diagnosed.ext <;> simp [Except.toOption]
            · refine total_bind_eq (g := fun _ => Except.toOption <$> giveUp opening _) note_none ?_
              apply Diagnosed.ext <;> simp

theorem bindings_eq {form : BindingForm} {head : String} {ds : List Datum}
    (reads : ∀ d ∈ ds, ∀ opening elems, d = .list opening elems →
      ∀ part ∈ elems, parse part = total (ofDatum part)) :
    Strict.bindings parse form head ds = total (Except.toOption <$> bindings form head ds) := by
  induction ds with
  | nil => exact total_pure.symm
  | cons d ds ih =>
    cases d with
    | atom token => exact note_none
    | list opening elems =>
      have first := @binding_eq parse form head opening opening elems
        (reads _ List.mem_cons_self opening elems rfl)
      have rest := ih fun d member => reads d (List.mem_cons_of_mem _ member)
      rw [Strict.bindings, bindings, first]
      cases found : (binding form head opening opening elems).value with
      | error cause =>
        refine total_bind_eq (g := fun _ => pure none) ?_ ?_
        · simp [found, Except.toOption]
        · apply Diagnosed.ext <;> simp [found, Except.toOption]
      | ok bound =>
        refine total_bind_eq (g := fun _ =>
          Option.map (bound :: ·) <$> Except.toOption <$> bindings form head ds) ?_ ?_
        · simp only [Diagnosed.value_map, found, Except.toOption, rest]
          refine total_bind_eq (g := fun others => pure (others.map (bound :: ·))) ?_ ?_
          · cases (Except.toOption <$> bindings form head ds).value <;> simp
          · apply Diagnosed.ext <;> simp
        · cases others : (bindings form head ds).value <;>
            (apply Diagnosed.ext <;> simp [found, others, Except.toOption])

end

/-! The last note, where there is a problem, is the one about it. -/

/-- The cause that is handed on is that of the last note. -/
def Ends {α : Type} (x : Diagnosed ParseError (Except ParseError α)) : Prop :=
  ∀ cause, x.value = .error cause → ∃ anchor, x.notes.getLast? = some ⟨anchor, cause⟩

namespace Ends

variable {α β : Type}

theorem ok {a : α} : Ends (pure (.ok a)) := by
  intro cause failed
  simp at failed

theorem giveUp {anchor : Token} {cause : ParseError} :
    Ends (giveUp anchor cause : Diagnosed ParseError (Except ParseError α)) := by
  rintro _ ⟨⟩
  exact ⟨anchor, rfl⟩

theorem after {x : Diagnosed ParseError β} {f : β → Diagnosed ParseError (Except ParseError α)}
    (ends : Ends (f x.value)) : Ends (x >>= f) := by
  intro cause failed
  obtain ⟨anchor, last⟩ := ends cause failed
  exact ⟨anchor, by rw [Diagnosed.notes_bind, List.getLast?_append, last, Option.some_or]⟩

theorem handOn {x : Diagnosed ParseError (Except ParseError β)}
    {f : Except ParseError β → Diagnosed ParseError (Except ParseError α)} (ends : Ends x)
    (error : ∀ cause, f (.error cause) = pure (.error cause)) (ok : ∀ b, Ends (f (.ok b))) :
    Ends (x >>= f) := by
  cases found : x.value with
  | error cause =>
    intro cause' failed
    obtain ⟨anchor, last⟩ := ends cause found
    obtain rfl : cause = cause' := by simpa [found, error] using failed
    exact ⟨anchor, by simp [found, error, last]⟩
  | ok b => exact after (by rw [found]; exact ok b)

end Ends

theorem ends_binding {form : BindingForm} {head : String} {start opening : Token}
    {ds : List Datum} : Ends (binding form head start opening ds) := by
  cases ds with
  | nil => exact .giveUp
  | cons name rest =>
    rw [binding]
    split
    · split
      · exact .giveUp
      · split
        · split
          · exact .giveUp
          · refine .after ?_
            split
            · exact .after .ok
            · exact .giveUp
        · split
          · split
            · exact .giveUp
            · exact .after .ok
          · exact .giveUp
    · exact .giveUp

theorem ends_bindings {form : BindingForm} {head : String} {ds : List Datum} :
    Ends (bindings form head ds) := by
  induction ds with
  | nil => exact .ok
  | cons d ds ih =>
    cases d with
    | atom token => exact .giveUp
    | list opening elems =>
      refine .handOn ends_binding (fun _ => rfl) fun first => ?_
      exact .handOn ih (fun _ => rfl) fun others => .ok

/-- The expression in the place of a function with a problem. -/
def brokenPart {α : Type} : Except (Token × ParseError) α → Except Expr α
  | .error (token, cause) => .error (.broken token cause.message)
  | .ok a => .ok a

/-- A problem that breaks the expression that a token starts. -/
theorem bad_part {α : Type} {anchor : Token} {cause : ParseError} :
    (Except.error <$> Strict.bad anchor cause : Guarded ParseError (Except Expr α)) =
      total (brokenPart <$> (do
        Diagnosed.note anchor cause
        pure (.error (anchor, cause)) : Diagnosed ParseError (Except (Token × ParseError) α))) := by
  rw [bad_eq, total_map]
  rfl

theorem failed_part {α : Type} {lambda anchor : Token} {cause : ParseError}
    {f : Strict.Named → Guarded ParseError (Except Expr α)}
    (failed : f .failed = .error <$> Strict.placeholder lambda) :
    total (do Diagnosed.note anchor cause; pure Strict.Named.failed) >>= f =
      total (brokenPart <$> (do
        Diagnosed.note anchor cause
        pure (.error (lambda, cause)) : Diagnosed ParseError (Except (Token × ParseError) α))) := by
  have last : (do Diagnosed.note anchor cause; pure Strict.Named.failed :
      Diagnosed ParseError Strict.Named).notes.getLast? = some ⟨anchor, cause⟩ := rfl
  rw [total_bind_value]
  change (total _ >>= fun _ => f .failed) = _
  rw [failed, Strict.placeholder, map_eq_pure_bind]
  simp only [bind_assoc, pure_bind]
  rw [total_bind_lastMessage last]
  refine total_bind_eq (g := fun _ => pure (.error (.broken lambda cause.message)))
    total_pure.symm ?_
  apply Diagnosed.ext <;> simp [brokenPart]

theorem param_eq {lambda : Token} {d : Datum} :
    Strict.param lambda d = total (brokenPart <$> param lambda d) := by
  cases d with
  | atom token => exact bad_part
  | list opening elems =>
    rw [Strict.param, named_eq]
    simp only [param]
    cases elems with
    | nil => exact failed_part rfl
    | cons name rest =>
      simp only [namedPart]
      cases isName : name.isAtom .ident with
      | false =>
        simp only [Bool.false_eq_true, if_false]
        exact failed_part rfl
      | true =>
        simp only [if_true]
        cases rest with
        | nil =>
          simp only [total_pure, pure_bind]
          exact bad_part
        | cons next rest =>
          cases isColon : next.isAtom (.mark .colon) with
          | false =>
            simp only [isColon, Bool.false_eq_true, if_false, total_pure, pure_bind]
            exact bad_part
          | true =>
            simp only [isColon, if_true]
            cases rest with
            | nil => exact failed_part rfl
            | cons type rest =>
              cases rest with
              | nil =>
                refine total_bind_eq (g := fun found =>
                  pure (.ok ⟨name.token, name.token.literal, found.type⟩)) ?_ ?_
                · simp
                · apply Diagnosed.ext <;> simp [brokenPart]
              | cons extra rest =>
                refine total_bind_eq (g := fun _ => brokenPart <$> (do
                  Diagnosed.note opening .parameterShape
                  pure (.error (opening, .parameterShape)))) bad_part ?_
                apply Diagnosed.ext <;> simp

theorem params_eq {lambda : Token} {ds : List Datum} :
    Strict.params lambda ds = total (brokenPart <$> params lambda ds) := by
  induction ds with
  | nil => exact total_pure.symm
  | cons d ds ih =>
    rw [Strict.params, params, param_eq]
    cases found : (param lambda d).value with
    | error problem =>
      refine total_bind_eq (g := fun _ => pure (brokenPart (.error problem))) ?_ ?_
      · simp [found, brokenPart]
      · apply Diagnosed.ext <;> simp [found]
    | ok binder =>
      refine total_bind_eq (g := fun _ =>
        Except.map (binder :: ·) <$> brokenPart <$> params lambda ds) ?_ ?_
      · simp only [Diagnosed.value_map, found, brokenPart, ih]
        refine total_bind_eq (g := fun others => pure (others.map (binder :: ·))) ?_ ?_
        · cases (brokenPart <$> params lambda ds).value <;> simp [Except.map]
        · apply Diagnosed.ext <;> simp
      · cases others : (params lambda ds).value <;>
          (apply Diagnosed.ext <;> simp [found, others, brokenPart, Except.map])

/-! The forms one by one. -/

section

variable {parse : Datum → Guarded ParseError Expr} {opening : Token} {head : Datum}
  {args : List Datum} (reads : ∀ d ∈ args, parse d = total (ofDatum d))
include reads

/-- The operand at a place after the head. -/
theorem operand_eq {d : Datum} {index : Nat} (found : args[index]? = some d) :
    Strict.ofPlace parse (head :: args) (index + 1) = total (ofDatum d) :=
  ofPlace_eq (by simpa using found) (reads d (List.mem_of_getElem? found))

theorem binary_eq {op : BinaryOp} (shape : Head.ofDatum head = .binary op) :
    Strict.binary parse op opening (head :: args) =
      total (ofDatum (.list opening (head :: args))) := by
  unfold ofDatum
  rw [Strict.binary, arity_bind]
  simp only [shape]
  rcases args with _ | ⟨left, _ | ⟨right, _ | ⟨extra, rest⟩⟩⟩
  · rfl
  · rfl
  · rw [if_pos (by simp), @operand_eq _ head _ reads left 0 rfl,
      @operand_eq _ head _ reads right 1 rfl]
    exact total_bind (total_bind total_pure.symm)
  · rw [if_neg (by simp)]

theorem unary_eq {op : UnaryOp} (shape : Head.ofDatum head = .unary op) :
    Strict.unary parse op opening (head :: args) =
      total (ofDatum (.list opening (head :: args))) := by
  unfold ofDatum
  rw [Strict.unary, arity_bind]
  simp only [shape]
  rcases args with _ | ⟨operand, _ | ⟨extra, rest⟩⟩
  · rfl
  · rw [if_pos (by simp), @operand_eq _ head _ reads operand 0 rfl]
    exact total_bind total_pure.symm
  · rw [if_neg (by simp)]

theorem branch_eq (shape : Head.ofDatum head = .branch) :
    Strict.branch parse opening (head :: args) =
      total (ofDatum (.list opening (head :: args))) := by
  unfold ofDatum
  rw [Strict.branch, arity_bind]
  simp only [shape]
  rcases args with _ | ⟨cond, _ | ⟨yes, _ | ⟨no, _ | ⟨extra, rest⟩⟩⟩⟩
  · rfl
  · rfl
  · rfl
  · rw [if_pos (by simp), @operand_eq _ head _ reads cond 0 rfl,
      @operand_eq _ head _ reads yes 1 rfl, @operand_eq _ head _ reads no 2 rfl]
    exact total_bind (total_bind (total_bind total_pure.symm))
  · rw [if_neg (by simp)]

theorem list_eq (shape : Head.ofDatum head = .list) :
    Strict.list parse opening (head :: args) = total (ofDatum (.list opening (head :: args))) := by
  unfold ofDatum
  simp only [shape, Strict.list, dropFirst, List.length_cons, Nat.le_add_left, if_true, pure_bind,
    List.drop_succ_cons, List.drop_zero]
  cases args with
  | nil => exact total_pure.symm
  | cons first rest =>
    cases isColon : first.isAtom (.mark .colon) with
    | false =>
      simp only [startsWith_cons, isColon, pure_bind, Bool.false_eq_true, if_false,
        ofAll_eq reads]
      rw [ofData]
      refine total_bind_eq (g := fun elems => pure (.list opening none elems)) total_pure.symm ?_
      simp only [bind_assoc, pure_bind]
    | true =>
      simp only [startsWith_cons, isColon, pure_bind, if_true]
      cases rest with
      | nil => exact bad_eq
      | cons type rest =>
        have elems := @ofAll_eq parse rest fun d member => reads d (by simp [member])
        rw [if_neg (by simp)]
        simp only [List.getElem?_cons_succ, List.getElem?_cons_zero, demand_some, pure_bind,
          ofDatum_type_eq, List.length_cons, Nat.le_add_left, if_true, List.drop_succ_cons,
          List.drop_zero, elems]
        exact total_bind (total_bind total_pure.symm)

theorem read_eq (shape : Head.ofDatum head = .read) :
    Strict.read parse opening (head :: args) = total (ofDatum (.list opening (head :: args))) := by
  unfold ofDatum
  simp only [shape, Strict.read]
  rcases args with _ | ⟨source, _ | ⟨extra, rest⟩⟩
  · exact total_pure.symm
  · simp only [List.length_cons, List.length_nil]
    rw [@operand_eq _ head _ reads source 0 rfl]
    exact total_bind total_pure.symm
  · simp only [List.length_cons, headToken_cons, pure_bind, bad_eq]
    rfl

end

section

variable {parse : Datum → Guarded ParseError Expr} {opening : Token} {head : Datum}
  {args : List Datum} {bound : Nat} (reads : ∀ d, d.depth ≤ bound → parse d = total (ofDatum d))
  (deep : Datum.depthAll args ≤ bound)
include reads deep

theorem reads_args : ∀ d ∈ args, parse d = total (ofDatum d) := by
  intro d member
  exact reads d ((Datum.depth_le_of_mem member).trans deep)

theorem binder_eq {form : BindingForm} {make : List (Binder × Expr) → Expr → Expr} :
    Strict.binder parse form make opening (head :: args) = total (match args with
      | [.atom token, _] => malformedForm opening token (.bindingList head.token.literal)
      | [.list _ group, body] => do
        match ← bindings form head.token.literal group with
        | .error cause => pure (.broken opening cause.message)
        | .ok bound => do
          let body ← ofDatum body
          pure (make bound body)
      | _ => malformedForm opening head.token
        (.operandCount head.token.literal 2 args.length)) := by
  rw [Strict.binder, arity_bind]
  rcases args with _ | ⟨group, _ | ⟨body, _ | ⟨extra, rest⟩⟩⟩
  · rfl
  · rw [if_neg (by simp)]
    cases group <;> rfl
  · rw [if_pos (by simp)]
    simp only [headToken_cons, pure_bind, List.getElem?_cons_succ, List.getElem?_cons_zero,
      demand_some]
    cases group with
    | atom token => exact total_bind_placeholder rfl
    | list left group =>
      have inside : ∀ d ∈ group, ∀ opening elems, d = .list opening elems →
          ∀ part ∈ elems, parse part = total (ofDatum part) := by
        rintro _ member opening elems rfl part partMember
        have outer := Datum.depth_le_of_mem member
        have inner := Datum.depth_le_of_mem partMember
        simp only [Datum.depth, Datum.depthAll] at outer deep
        exact reads part (by omega)
      have values := @bindings_eq parse form head.token.literal group inside
      have bodyEq := @operand_eq _ head _ (reads_args reads deep) body 1 rfl
      simp only [values, bodyEq]
      cases found : (bindings form head.token.literal group).value with
      | error cause =>
        obtain ⟨anchor, last⟩ := ends_bindings cause found
        rw [total_bind_value]
        simp only [Diagnosed.value_map, found, Except.toOption]
        rw [total_bind_placeholder (by rw [Diagnosed.notes_map]; exact last)]
        refine congrArg total ?_
        apply Diagnosed.ext <;> simp [found]
      | ok values =>
        refine total_bind_eq (g := fun _ => do
          let body ← ofDatum body
          pure (make values body)) ?_ ?_
        · simp only [Diagnosed.value_map, found, Except.toOption]
          exact total_bind total_pure.symm
        · apply Diagnosed.ext <;> simp [found]
  · rw [if_neg (by simp)]
    cases group <;> rfl

theorem letIn_eq (shape : Head.ofDatum head = .letIn) :
    Strict.binder parse .letIn (.letIn opening) opening (head :: args) =
      total (ofDatum (.list opening (head :: args))) := by
  unfold ofDatum
  simp only [shape]
  exact binder_eq reads deep

theorem letrec_eq (shape : Head.ofDatum head = .letrec) :
    Strict.binder parse .letrec (.letrec opening) opening (head :: args) =
      total (ofDatum (.list opening (head :: args))) := by
  unfold ofDatum
  simp only [shape]
  exact binder_eq reads deep

theorem lambda_eq (shape : Head.ofDatum head = .lambda) :
    Strict.lambda parse opening (head :: args) =
      total (ofDatum (.list opening (head :: args))) := by
  unfold ofDatum
  rw [Strict.lambda, arity_bind]
  simp only [shape]
  rcases args with _ | ⟨group, _ | ⟨body, _ | ⟨extra, rest⟩⟩⟩
  · rfl
  · rw [if_neg (by simp)]
    cases group <;> rfl
  · rw [if_pos (by simp)]
    simp only [pure_bind, List.getElem?_cons_succ, List.getElem?_cons_zero, demand_some]
    cases group with
    | atom token => exact bad_eq
    | list left group =>
      have bodyEq := @operand_eq _ head _ (reads_args reads deep) body 1 rfl
      simp only [params_eq, bodyEq]
      cases found : (params opening group).value with
      | error problem =>
        refine total_bind_eq (g := fun _ => pure (.broken problem.1 problem.2.message)) ?_ ?_
        · simp [found, brokenPart]
        · apply Diagnosed.ext <;> simp [found]
      | ok binders =>
        refine total_bind_eq (g := fun _ => do
          let body ← ofDatum body
          pure (.lambda opening binders body)) ?_ ?_
        · simp only [Diagnosed.value_map, found, brokenPart]
          exact total_bind total_pure.symm
        · apply Diagnosed.ext <;> simp [found]
  · rw [if_neg (by simp)]
    cases group <;> rfl

end

theorem form_eq {parse : Datum → Guarded ParseError Expr} {opening : Token} {elems : List Datum}
    {bound : Nat} (reads : ∀ d, d.depth ≤ bound → parse d = total (ofDatum d))
    (deep : Datum.depthAll elems ≤ bound) :
    Strict.form parse opening elems = total (ofDatum (.list opening elems)) := by
  cases elems with
  | nil => exact bad_eq
  | cons head args =>
    rw [Datum.depthAll, Nat.max_le] at deep
    have all := reads_args reads deep.2
    simp only [Strict.form, List.length_cons, Nat.add_one_ne_zero, if_false,
      List.getElem?_cons_zero, demand_some, pure_bind, dropFirst_one_cons]
    cases shape : Head.ofDatum head with
    | binary op => exact binary_eq all shape
    | unary op => exact unary_eq all shape
    | branch => exact branch_eq all shape
    | letIn => exact letIn_eq reads deep.2 shape
    | letrec => exact letrec_eq reads deep.2 shape
    | lambda => exact lambda_eq reads deep.2 shape
    | list => exact list_eq all shape
    | read => exact read_eq all shape
    | add =>
      unfold ofDatum
      simp only [shape, ofAll_eq all]
      exact total_bind total_pure.symm
    | define | misplaced =>
      unfold ofDatum
      simp only [shape]
      exact bad_eq
    | operator =>
      unfold ofDatum
      simp only [shape, ofAll_eq all, reads head deep.1]
      exact total_bind (total_bind total_pure.symm)

theorem round_eq {rounds : Nat} {d : Datum} (enough : d.depth ≤ rounds) :
    Strict.round rounds d = total (ofDatum d) := by
  induction rounds generalizing d with
  | zero => cases d <;> simp [Datum.depth] at enough
  | succ rounds ih =>
    cases d with
    | atom token => exact ofAtom_eq
    | list opening elems =>
      rw [Datum.depth] at enough
      exact form_eq (fun d within => ih within) (by omega)

theorem ofDatum_eq {d : Datum} : Strict.ofDatum d = total (ofDatum d) := round_eq (Nat.le_refl _)

end Expr

end TypedForms
