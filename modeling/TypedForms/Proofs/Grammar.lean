import TypedForms.Expr
import TypedForms.Proofs.Datum

/-! The grammar of sources: which token sequences spell which trees. The rules look at the kinds
of tokens and at their texts, never at where they stand. -/
namespace TypedForms

/-! Types. -/

namespace Ty

/-- The types that have a name. -/
inductive Named : String → Ty → Prop where
  | num : Named "num" .num
  | str : Named "str" .str
  | bool : Named "bool" .bool
  | unit : Named "unit" .unit

mutual

inductive Spells : List Token → Ty → Prop where
  | unit {token} (kind : token.kind = .keyword .unit) : Spells [token] .unit
  | name {token t} (kind : token.kind = .ident) (named : Named token.literal t) :
    Spells [token] t
  | func {opening closing arrow params result types t} (parens : Token.Parens opening closing)
    (before : SpellAll params types) (kind : arrow.kind = .mark .arrow)
    (after : Spells result t) :
    Spells (opening.enclose (params ++ arrow :: result) closing) (.func types t)
  | pair {opening closing head first second left right} (parens : Token.Parens opening closing)
    (kind : head.kind = .ident) (literal : head.literal = "pair") (leftType : Spells first left)
    (rightType : Spells second right) :
    Spells (opening.enclose (head :: (first ++ second)) closing) (.pair left right)
  | list {opening closing head inside elem} (parens : Token.Parens opening closing)
    (kind : head.kind = .keyword .list) (elemType : Spells inside elem) :
    Spells (opening.enclose (head :: inside) closing) (.list elem)
  | ref {opening closing head inside elem} (parens : Token.Parens opening closing)
    (kind : head.kind = .keyword .ref) (elemType : Spells inside elem) :
    Spells (opening.enclose (head :: inside) closing) (.ref elem)

inductive SpellAll : List Token → List Ty → Prop where
  | nil : SpellAll [] []
  | cons {first rest t ts} (head : Spells first t) (tail : SpellAll rest ts) :
    SpellAll (first ++ rest) (t :: ts)

end

end Ty

/-! Expressions. -/

/-- The kind of the token that a form with two operands starts with. -/
def BinaryOp.kind : BinaryOp → Token.Kind
  | .sub => .mark .sub
  | .mul => .mark .mul
  | .div => .mark .quo
  | .less => .mark .less
  | .greater => .mark .greater
  | .equal => .mark .equal
  | .cons => .keyword .cons
  | .assign => .keyword .assign

/-- The kind of the token that a form with one operand starts with. -/
def UnaryOp.kind : UnaryOp → Token.Kind
  | .car => .keyword .car
  | .cdr => .keyword .cdr
  | .null => .keyword .null
  | .ref => .keyword .ref
  | .deref => .keyword .deref
  | .free => .keyword .free
  | .eval => .keyword .eval

/-- The inside of a parameter: a name and its type. -/
inductive Binder.SpellsParam : List Token → Binder → Prop where
  | typed {name colon inside t} (nameKind : name.kind = .ident)
    (colonKind : colon.kind = .mark .colon) (type : Ty.Spells inside t) :
    SpellsParam (name :: colon :: inside) ⟨name, name.literal, some t⟩

inductive Binder.SpellParams : List Token → List Binder → Prop where
  | nil : SpellParams [] []
  | cons {opening closing inside rest binder binders} (parens : Token.Parens opening closing)
    (head : SpellsParam inside binder) (tail : SpellParams rest binders) :
    SpellParams (opening.enclose inside closing ++ rest) (binder :: binders)

namespace Expr

mutual

inductive Spells : List Token → Expr → Prop where
  | number {token value} (kind : token.kind = .number)
    (valued : Binary64.ofLiteral? token.literal.toList = some value) :
    Spells [token] (.number token value)
  | string {token} (kind : token.kind = .string) : Spells [token] (.string token token.literal)
  | bool {token} (kind : token.kind = .bool) : Spells [token] (.bool token (token.literal == "#t"))
  | unit {token} (kind : token.kind = .keyword .unit) : Spells [token] (.unit token)
  | var {token} (kind : token.kind = .ident) : Spells [token] (.var token token.literal)
  | add {opening closing head inside operands} (parens : Token.Parens opening closing)
    (kind : head.kind = .mark .add) (parts : SpellAll inside operands) :
    Spells (opening.enclose (head :: inside) closing) (.add opening operands)
  | binary {opening closing head op first second left right}
    (parens : Token.Parens opening closing) (kind : head.kind = BinaryOp.kind op)
    (leftPart : Spells first left) (rightPart : Spells second right) :
    Spells (opening.enclose (head :: (first ++ second)) closing) (.binary opening op left right)
  | unary {opening closing head op inside operand} (parens : Token.Parens opening closing)
    (kind : head.kind = UnaryOp.kind op) (part : Spells inside operand) :
    Spells (opening.enclose (head :: inside) closing) (.unary opening op operand)
  | branch {opening closing head first second third cond yes no}
    (parens : Token.Parens opening closing) (kind : head.kind = .keyword .ifForm)
    (condPart : Spells first cond) (yesPart : Spells second yes) (noPart : Spells third no) :
    Spells (opening.enclose (head :: (first ++ (second ++ third))) closing)
      (.branch opening cond yes no)
  | letIn {opening closing head left right group inside bound body}
    (parens : Token.Parens opening closing) (kind : head.kind = .keyword .letForm)
    (groupParens : Token.Parens left right) (bindings : SpellBindings .letIn group bound)
    (bodyPart : Spells inside body) :
    Spells (opening.enclose (head :: (left.enclose group right ++ inside)) closing)
      (.letIn opening bound body)
  | letrec {opening closing head left right group inside bound body}
    (parens : Token.Parens opening closing) (kind : head.kind = .keyword .letrec)
    (groupParens : Token.Parens left right) (bindings : SpellBindings .letrec group bound)
    (bodyPart : Spells inside body) :
    Spells (opening.enclose (head :: (left.enclose group right ++ inside)) closing)
      (.letrec opening bound body)
  | lambda {opening closing head left right group inside params body}
    (parens : Token.Parens opening closing) (kind : head.kind = .keyword .lambda)
    (groupParens : Token.Parens left right) (binders : Binder.SpellParams group params)
    (bodyPart : Spells inside body) :
    Spells (opening.enclose (head :: (left.enclose group right ++ inside)) closing)
      (.lambda opening params body)
  | call {opening closing first rest operator args} (parens : Token.Parens opening closing)
    (operatorPart : Spells first operator) (parts : SpellAll rest args) :
    Spells (opening.enclose (first ++ rest) closing) (.call opening operator args)
  | list {opening closing head inside elems} (parens : Token.Parens opening closing)
    (kind : head.kind = .keyword .list) (parts : SpellAll inside elems) :
    Spells (opening.enclose (head :: inside) closing) (.list opening none elems)
  | typedList {opening closing head colon first rest t elems}
    (parens : Token.Parens opening closing) (kind : head.kind = .keyword .list)
    (colonKind : colon.kind = .mark .colon) (type : Ty.Spells first t)
    (parts : SpellAll rest elems) :
    Spells (opening.enclose (head :: colon :: (first ++ rest)) closing)
      (.list opening (some t) elems)
  | read {opening closing head} (parens : Token.Parens opening closing)
    (kind : head.kind = .keyword .read) : Spells (opening.enclose [head] closing) (.read opening)
  | readFrom {opening closing head inside source} (parens : Token.Parens opening closing)
    (kind : head.kind = .keyword .read) (part : Spells inside source) :
    Spells (opening.enclose (head :: inside) closing) (.readFrom opening source)

inductive SpellAll : List Token → List Expr → Prop where
  | nil : SpellAll [] []
  | cons {first rest e es} (head : Spells first e) (tail : SpellAll rest es) :
    SpellAll (first ++ rest) (e :: es)

/-- The inside of a binding. Only recursive bindings need a type. -/
inductive SpellsBinding : BindingForm → List Token → Binder × Expr → Prop where
  | plain {form name inside value} (optional : form ≠ .letrec) (nameKind : name.kind = .ident)
    (part : Spells inside value) :
    SpellsBinding form (name :: inside) (⟨name, name.literal, none⟩, value)
  | typed {form name colon first rest t value} (nameKind : name.kind = .ident)
    (colonKind : colon.kind = .mark .colon) (type : Ty.Spells first t)
    (part : Spells rest value) :
    SpellsBinding form (name :: colon :: (first ++ rest)) (⟨name, name.literal, some t⟩, value)

inductive SpellBindings : BindingForm → List Token → List (Binder × Expr) → Prop where
  | nil {form} : SpellBindings form [] []
  | cons {form opening closing inside rest binding bound} (parens : Token.Parens opening closing)
    (head : SpellsBinding form inside binding) (tail : SpellBindings form rest bound) :
    SpellBindings form (opening.enclose inside closing ++ rest) (binding :: bound)

end

end Expr

/-! Programs. -/

inductive Decl.Spells : List Token → Decl → Prop where
  | define {opening closing head inside binder value} (parens : Token.Parens opening closing)
    (kind : head.kind = .keyword .define)
    (binding : Expr.SpellsBinding .define inside (binder, value)) :
    Spells (opening.enclose (head :: inside) closing) ⟨opening, binder, value⟩

/-- Definitions, and then one expression. -/
inductive Program.Spells : List Token → Program → Prop where
  | result {tokens e} (spells : Expr.Spells tokens e) : Spells tokens ⟨[], e⟩
  | define {first rest d ds e} (head : Decl.Spells first d) (tail : Spells rest ⟨ds, e⟩) :
    Spells (first ++ rest) ⟨d :: ds, e⟩

end TypedForms
