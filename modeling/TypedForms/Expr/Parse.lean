import TypedForms.Expr
import TypedForms.Ty.Parse

/-! Reading expressions and definitions from data. A form that is not well formed is noted and
read as a broken expression with the same message; its parts are then not looked at. -/
namespace TypedForms

namespace Expr

abbrev Parsed := Diagnosed ParseError Expr

/-- A broken expression in the place of what its anchor starts. -/
def malformed (anchor : Token) (cause : ParseError) : Parsed := do
  Diagnosed.note anchor cause
  pure (.broken anchor cause.message)

/-- A broken form: the problem is anchored inside it, the expression is the whole form. -/
def malformedForm (opening anchor : Token) (cause : ParseError) : Parsed := do
  Diagnosed.note anchor cause
  pure (.broken opening cause.message)

def ofToken (token : Token) : Parsed :=
  match token.kind with
  | .number =>
    match Binary64.ofLiteral? token.literal.toList with
    | some value => pure (.number token value)
    | none => malformed token (.badNumber token.literal)
  | .string => pure (.string token token.literal)
  | .bool => pure (.bool token (token.literal == "#t"))
  | .keyword .unit => pure (.unit token)
  | .ident => pure (.var token token.literal)
  | .illegal => malformed token (.illegalToken token.literal)
  | _ => malformed token (.outsideForm token.literal)

/-- What the first element of a form makes of it. -/
inductive Head where
  | add
  | binary (op : BinaryOp)
  | unary (op : UnaryOp)
  | branch
  | letIn
  | letrec
  | lambda
  | list
  | read
  | define
  | misplaced
  | operator

def Head.ofKind : Token.Kind → Head
  | .mark .add => .add
  | .mark .sub => .binary .sub
  | .mark .mul => .binary .mul
  | .mark .quo => .binary .div
  | .mark .less => .binary .less
  | .mark .greater => .binary .greater
  | .mark .equal => .binary .equal
  | .mark .colon => .misplaced
  | .mark .arrow => .misplaced
  | .keyword .cons => .binary .cons
  | .keyword .assign => .binary .assign
  | .keyword .car => .unary .car
  | .keyword .cdr => .unary .cdr
  | .keyword .null => .unary .null
  | .keyword .ref => .unary .ref
  | .keyword .deref => .unary .deref
  | .keyword .free => .unary .free
  | .keyword .eval => .unary .eval
  | .keyword .ifForm => .branch
  | .keyword .letForm => .letIn
  | .keyword .letrec => .letrec
  | .keyword .lambda => .lambda
  | .keyword .list => .list
  | .keyword .read => .read
  | .keyword .define => .define
  | _ => .operator

def Head.ofDatum : Datum → Head
  | .atom token => .ofKind token.kind
  | .list .. => .operator

/-- The cause when a binding does not have exactly one value. -/
def valueCount (form : BindingForm) (name : String) : ParseError :=
  match form with
  | .define => .defineValue name
  | .letIn | .letrec => .bindingValue name

/-- Notes a problem and gives up; the cause is handed on to whoever has to go on without. -/
def giveUp {α : Type} (anchor : Token) (cause : ParseError) :
    Diagnosed ParseError (Except ParseError α) := do
  Diagnosed.note anchor cause
  pure (.error cause)

/-- A parameter is a name and a type, written with a colon between them. A problem inside the
parentheses breaks the whole function, any other only the parameter. -/
def param (lambda : Token) : Datum → Diagnosed ParseError (Except (Token × ParseError) Binder)
  | .atom token => do
    Diagnosed.note token (.untypedParameter token.literal)
    pure (.error (token, .untypedParameter token.literal))
  | .list opening elems =>
    let inside (anchor : Token) (cause : ParseError) := do
      Diagnosed.note anchor cause
      pure (.error (lambda, cause))
    let misshapen := do
      Diagnosed.note opening ParseError.parameterShape
      pure (.error (opening, ParseError.parameterShape))
    match elems with
    | [] => inside opening .expectedName
    | name :: rest =>
      if name.isAtom .ident then
        match rest with
        | [] => misshapen
        | colon :: rest =>
          if colon.isAtom (.mark .colon) then
            match rest with
            | [] => inside colon.token .missingType
            | type :: rest => do
              let type ← Ty.ofDatum type
              match rest with
              | [] => pure (.ok ⟨name.token, name.token.literal, some type⟩)
              | _ :: _ => misshapen
          else misshapen
      else inside name.token .expectedName

def params (lambda : Token) :
    List Datum → Diagnosed ParseError (Except (Token × ParseError) (List Binder))
  | [] => pure (.ok [])
  | d :: ds => do
    match ← param lambda d with
    | .error problem => pure (.error problem)
    | .ok binder =>
      match ← params lambda ds with
      | .error problem => pure (.error problem)
      | .ok binders => pure (.ok (binder :: binders))

mutual

def ofDatum : Datum → Parsed
  | .atom token => ofToken token
  | .list opening elems =>
    match elems with
    | [] => malformed opening .emptyForm
    | head :: args =>
      let miscounted (expected : Nat) : Parsed :=
        malformedForm opening head.token
          (.operandCount head.token.literal expected args.length)
      match Head.ofDatum head with
      | .add => do
        let operands ← ofData args
        pure (.add opening operands)
      | .binary op =>
        match args with
        | [left, right] => do
          let left ← ofDatum left
          let right ← ofDatum right
          pure (.binary opening op left right)
        | _ => miscounted 2
      | .unary op =>
        match args with
        | [operand] => do
          let operand ← ofDatum operand
          pure (.unary opening op operand)
        | _ => miscounted 1
      | .branch =>
        match args with
        | [cond, yes, no] => do
          let cond ← ofDatum cond
          let yes ← ofDatum yes
          let no ← ofDatum no
          pure (.branch opening cond yes no)
        | _ => miscounted 3
      | .letIn =>
        match args with
        | [.atom token, _] =>
          malformedForm opening token (.bindingList head.token.literal)
        | [.list _ group, body] => do
          match ← bindings .letIn head.token.literal group with
          | .error cause => pure (.broken opening cause.message)
          | .ok bound => do
            let body ← ofDatum body
            pure (.letIn opening bound body)
        | _ => miscounted 2
      | .letrec =>
        match args with
        | [.atom token, _] =>
          malformedForm opening token (.bindingList head.token.literal)
        | [.list _ group, body] => do
          match ← bindings .letrec head.token.literal group with
          | .error cause => pure (.broken opening cause.message)
          | .ok bound => do
            let body ← ofDatum body
            pure (.letrec opening bound body)
        | _ => miscounted 2
      | .lambda =>
        match args with
        | [.atom token, _] => malformed token .parameterList
        | [.list _ group, body] => do
          match ← params opening group with
          | .error (token, cause) => pure (.broken token cause.message)
          | .ok binders => do
            let body ← ofDatum body
            pure (.lambda opening binders body)
        | _ => miscounted 2
      | .list =>
        match args with
        | [] => pure (.list opening none [])
        | first :: rest =>
          if first.isAtom (.mark .colon) then
            match rest with
            | [] => malformed first.token .missingElementType
            | type :: rest => do
              let type ← Ty.ofDatum type
              let elems ← ofData rest
              pure (.list opening (some type) elems)
          else do
            let first ← ofDatum first
            let rest ← ofData rest
            pure (.list opening none (first :: rest))
      | .read =>
        match args with
        | [] => pure (.read opening)
        | [source] => do
          let source ← ofDatum source
          pure (.readFrom opening source)
        | _ => malformed head.token (.readOperandCount args.length)
      | .define => malformed opening .nestedDefine
      | .misplaced => malformed head.token (.formStart head.token.literal)
      | .operator => do
        let operator ← ofDatum head
        let args ← ofData args
        pure (.call opening operator args)

def ofData : List Datum → Diagnosed ParseError (List Expr)
  | [] => pure []
  | d :: ds => do
    let first ← ofDatum d
    let rest ← ofData ds
    pure (first :: rest)

/-- Bindings in a group, each in parentheses. The first that is not well formed breaks the form
they belong to, and the ones after it are not looked at. -/
def bindings (form : BindingForm) (head : String) :
    List Datum → Diagnosed ParseError (Except ParseError (List (Binder × Expr)))
  | [] => pure (.ok [])
  | .atom token :: _ => giveUp token .bindingShape
  | .list opening elems :: rest => do
    match ← binding form head opening opening elems with
    | .error cause => pure (.error cause)
    | .ok first =>
      match ← bindings form head rest with
      | .error cause => pure (.error cause)
      | .ok others => pure (.ok (first :: others))

/-- The inside of a binding: a name, a type after a colon (which recursive bindings need), and
one value. -/
def binding (form : BindingForm) (head : String) (start opening : Token) :
    List Datum → Diagnosed ParseError (Except ParseError (Binder × Expr))
  | [] => giveUp start .expectedName
  | name :: rest =>
    let token := name.token
    if name.isAtom .ident then
      let miscounted := giveUp opening (valueCount form token.literal)
      match rest with
      | [] => miscounted
      | next :: rest =>
        if next.isAtom (.mark .colon) then
          match rest with
          | [] => giveUp next.token .missingType
          | type :: rest => do
            let type ← Ty.ofDatum type
            match rest with
            | [value] => do
              let value ← ofDatum value
              pure (.ok (⟨token, token.literal, some type⟩, value))
            | _ => miscounted
        else
          match rest with
          | [] =>
            if form = .letrec then giveUp token (.untypedBinding head token.literal)
            else do
              let value ← ofDatum next
              pure (.ok (⟨token, token.literal, none⟩, value))
          | _ :: _ => miscounted
    else giveUp token .expectedName

end

end Expr

namespace Decl

/-- A form at the top level that starts with `define`: its opening parenthesis, its head, and
what follows the head. -/
def parts? : Datum → Option (Token × Token × List Datum)
  | .list opening (head :: args) =>
    if head.isAtom (.keyword .define) then some (opening, head.token, args) else none
  | _ => none

/-- A definition, unless it is not well formed. -/
def ofParts (opening head : Token) (args : List Datum) : Diagnosed ParseError (Option Decl) := do
  match ← Expr.binding .define head.literal head opening args with
  | .error _ => pure none
  | .ok (binder, value) => pure (some ⟨opening, binder, value⟩)

end Decl

end TypedForms
