import TypedForms.Proofs.Diagnosed
import TypedForms.Program.Parse

/-! Tokens at other places, and trees and diagnostics with their tokens put there. Two computations
that find the same, the second one at the places where the first one's tokens have been put, can be
combined step by step. -/
namespace TypedForms

/-- The token at another place. -/
def Token.move (f : Position → Position) (token : Token) : Token :=
  { token with pos := f token.pos }

def Diagnostic.move {ε : Type} (f : Position → Position) (d : Diagnostic ε) : Diagnostic ε :=
  { d with anchor := d.anchor.move f }

/-- The token where `f` puts it. Other than a move, this may tell apart tokens at the same place. -/
def Token.put (f : Token → Position) (token : Token) : Token :=
  { token with pos := f token }

@[simp] theorem Token.kind_put {f : Token → Position} {token : Token} :
    (token.put f).kind = token.kind := rfl

@[simp] theorem Token.literal_put {f : Token → Position} {token : Token} :
    (token.put f).literal = token.literal := rfl

def Diagnostic.put {ε : Type} (f : Token → Position) (d : Diagnostic ε) : Diagnostic ε :=
  { d with anchor := d.anchor.put f }

namespace Datum

mutual

def put (f : Token → Position) : Datum → Datum
  | .atom token => .atom (token.put f)
  | .list opening elems => .list (opening.put f) (putAll f elems)

def putAll (f : Token → Position) : List Datum → List Datum
  | [] => []
  | d :: ds => put f d :: putAll f ds

end

variable {f : Token → Position} {d : Datum} {ds : List Datum}

theorem putAll_eq : putAll f ds = ds.map (put f) := by
  induction ds with
  | nil => rfl
  | cons d ds ih => rw [putAll, ih, List.map_cons]

@[simp] theorem token_put : (d.put f).token = d.token.put f := by
  cases d <;> rfl

@[simp] theorem isAtom_put {kind : Token.Kind} : (d.put f).isAtom kind = d.isAtom kind := by
  cases d <;> rfl

end Datum

def Item.put (f : Token → Position) : Item → Item
  | .form datum unclosed => .form (datum.put f) (unclosed.map (Token.put f))
  | .stray token => .stray (token.put f)

def Binder.put (f : Token → Position) (b : Binder) : Binder :=
  { b with token := b.token.put f }

namespace Expr

mutual

def put (f : Token → Position) : Expr → Expr
  | .absent => .absent
  | .number token value => .number (token.put f) value
  | .string token value => .string (token.put f) value
  | .bool token value => .bool (token.put f) value
  | .unit token => .unit (token.put f)
  | .broken token message => .broken (token.put f) message
  | .var token name => .var (token.put f) name
  | .add token operands => .add (token.put f) (putAll f operands)
  | .binary token op left right => .binary (token.put f) op (put f left) (put f right)
  | .unary token op operand => .unary (token.put f) op (put f operand)
  | .branch token cond yes no => .branch (token.put f) (put f cond) (put f yes) (put f no)
  | .letIn token bindings body => .letIn (token.put f) (putBindings f bindings) (put f body)
  | .letrec token bindings body => .letrec (token.put f) (putBindings f bindings) (put f body)
  | .lambda token params body => .lambda (token.put f) (params.map (Binder.put f)) (put f body)
  | .call token operator args => .call (token.put f) (put f operator) (putAll f args)
  | .list token elem elems => .list (token.put f) elem (putAll f elems)
  | .read token => .read (token.put f)
  | .readFrom token source => .readFrom (token.put f) (put f source)

def putAll (f : Token → Position) : List Expr → List Expr
  | [] => []
  | e :: es => put f e :: putAll f es

def putBindings (f : Token → Position) : List (Binder × Expr) → List (Binder × Expr)
  | [] => []
  | (binder, value) :: rest => (binder.put f, put f value) :: putBindings f rest

end

end Expr

def Decl.put (f : Token → Position) (d : Decl) : Decl :=
  ⟨d.token.put f, d.binder.put f, d.value.put f⟩

def Form.put (f : Token → Position) : Form → Form
  | .define decl => .define (decl.put f)
  | .expr e => .expr (e.put f)

def Program.put (f : Token → Position) (p : Program) : Program :=
  ⟨p.decls.map (Decl.put f), p.result.put f⟩

namespace Diagnosed

variable {ε α α' β β' : Type} {f : Token → Position} {g : α → α'} {h : β → β'}
  {x : Diagnosed ε α} {x' : Diagnosed ε α'}

/-- The second computation finds what the first one finds, at other places. -/
structure Moves (f : Token → Position) (g : α → α') (x : Diagnosed ε α)
    (x' : Diagnosed ε α') : Prop where
  value : x'.value = g x.value
  notes : x'.notes = x.notes.map (Diagnostic.put f)

namespace Moves

theorem pure {a : α} {a' : α'} (same : a' = g a) :
    @Moves ε α α' f g (Pure.pure a) (Pure.pure a') := ⟨same, rfl⟩

theorem note {anchor anchor' : Token} {cause : ε} (moved : anchor' = anchor.put f) :
    Moves f id (Diagnosed.note anchor cause) (Diagnosed.note anchor' cause) := by
  subst moved
  exact ⟨rfl, rfl⟩

theorem bind {k : α → Diagnosed ε β} {k' : α' → Diagnosed ε β'} (first : Moves f g x x')
    (next : Moves f h (k x.value) (k' (g x.value))) : Moves f h (x >>= k) (x' >>= k') := by
  obtain ⟨value, notes⟩ := first
  rw [← value] at next
  refine ⟨next.value, ?_⟩
  rw [notes_bind, notes, next.notes, notes_bind, List.map_append]

/-- What follows a problem does not depend on it. -/
theorem noteThen {anchor : Token} {cause : ε} {k : Unit → Diagnosed ε α}
    {k' : Unit → Diagnosed ε α'} (next : Moves f g (k ()) (k' ())) :
    Moves f g (Diagnosed.note anchor cause >>= k) (Diagnosed.note (anchor.put f) cause >>= k') :=
  bind (note rfl) next

theorem sequence {xs : List (Diagnosed ε α)} {xs' : List (Diagnosed ε α')}
    (each : List.Forall₂ (Moves f g) xs xs') :
    Moves f (List.map g) (Diagnosed.sequence xs) (Diagnosed.sequence xs') := by
  induction each with
  | nil => exact pure rfl
  | cons first _ ih => exact first.bind (ih.bind (pure rfl))

end Moves

end Diagnosed

end TypedForms
