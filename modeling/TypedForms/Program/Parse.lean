import TypedForms.Expr.Parse

/-! Reading sources. A source is a sequence of forms; a program is a source of definitions
followed by exactly one expression, its result. -/
namespace TypedForms

/-- What a source consists of. -/
inductive Form where
  | define (decl : Decl)
  | expr (value : Expr)

namespace Form

def render : Form → String
  | .define decl => decl.render
  | .expr e => e.render

/-- A definition that is not well formed leaves no form behind. -/
def ofDatum (d : Datum) : Diagnosed ParseError (Option Form) := do
  match Decl.parts? d with
  | some (opening, head, args) => do
    let decl ← Decl.ofParts opening head args
    pure (decl.map .define)
  | none => do
    let expr ← Expr.ofDatum d
    pure (some (.expr expr))

def ofItem : Item → Diagnosed ParseError (Option Form)
  | .stray token => do
    Diagnosed.note token .strayParen
    pure none
  | .form datum unclosed => do
    let _ ← Diagnosed.sequence (unclosed.map fun token => Diagnosed.note token .unclosedParen)
    ofDatum datum

def ofItems (items : List Item) : Diagnosed ParseError (List Form) := do
  let forms ← Diagnosed.sequence (items.map ofItem)
  pure (forms.filterMap id)

def ofStream (stream : TokenStream) : Diagnosed ParseError (List Form) :=
  ofItems (Item.ofTokens stream.tokens)

/-- The problem with a form that follows the result of a program. -/
def noteExtra : Form → Diagnosed ParseError Unit
  | .define decl => Diagnosed.note decl.token (.defineAfterResult decl.binder.name)
  | .expr e => Diagnosed.note e.token .secondResult

end Form

namespace Program

/-- The program that forms make up; `finish` is where the source ends. -/
def ofForms (finish : Token) : List Form → Diagnosed ParseError Program
  | [] => do
    Diagnosed.note finish .noResult
    pure ⟨[], .broken finish "missing result expression"⟩
  | .define decl :: forms => do
    let program ← ofForms finish forms
    pure { program with decls := decl :: program.decls }
  | .expr result :: extra => do
    let _ ← Diagnosed.sequence (extra.map Form.noteExtra)
    pure ⟨[], result⟩

def ofStream (stream : TokenStream) : Diagnosed ParseError Program := do
  let forms ← Form.ofStream stream
  ofForms stream.finish forms

def ofSource (file source : String) : Diagnosed ParseError Program :=
  ofStream (.ofSource file source)

end Program

end TypedForms
