import TypedForms.Datum
import TypedForms.ParseError
import TypedForms.Token.Scan
import TypedForms.Ty

/-! Reading types. A malformed type is noted and read as an error type with the same message,
so that the types around it can still be read. -/
namespace TypedForms.Ty

abbrev Parsed := Diagnosed ParseError Ty

def malformed (anchor : Token) (cause : ParseError) : Parsed := do
  Diagnosed.note anchor cause
  pure (.error cause.message)

def ofToken (token : Token) : Parsed :=
  let type? := match token.kind with
    | .keyword .unit => some .unit
    | .ident => ofName? token.literal
    | _ => none
  match type? with
  | some type => pure type
  | none => malformed token (.unknownType token.literal)

/-- The heads of types in parentheses, the arrow apart. -/
inductive Head where
  | list | ref | pair | other

def Head.ofToken (token : Token) : Head :=
  match token.kind with
  | .keyword .list => .list
  | .keyword .ref => .ref
  | .ident => if token.literal == "pair" then .pair else .other
  | _ => .other

def Head.ofDatum : Datum → Head
  | .atom token => .ofToken token
  | .list .. => .other

/-- A type in parentheses, from its elements and what each of them is as a type. Only the
elements that stand where a type belongs are looked at as types. -/
def compound (opening : Token) (elems : List Datum) (types : List Parsed) : Parsed :=
  match elems.findIdx? (·.isAtom (.mark .arrow)) with
  | some index =>
    match types.drop (index + 1) with
    | [result] => do
      let params ← Diagnosed.sequence (types.take index)
      let result ← result
      pure (.func params result)
    | _ =>
      let arrow := (elems[index]?.map Datum.token).getD opening
      malformed arrow .resultTypeCount
  | none =>
    match elems with
    | [] => malformed opening .emptyType
    | head :: _ =>
      match Head.ofDatum head, types.drop 1 with
      | .list, [elem] => do
        let elem ← elem
        pure (.list elem)
      | .ref, [elem] => do
        let elem ← elem
        pure (.ref elem)
      | .pair, [left, right] => do
        let left ← left
        let right ← right
        pure (.pair left right)
      | _, _ => malformed head.token (.malformedType head.token.literal)

mutual

def ofDatum : Datum → Parsed
  | .atom token => ofToken token
  | .list opening elems => compound opening elems (ofEach elems)

/-- Every datum as a type of its own. -/
def ofEach : List Datum → List Parsed
  | [] => []
  | d :: ds => ofDatum d :: ofEach ds

end

/-- Reads a source that consists of one type. -/
def ofStream (stream : TokenStream) : Parsed :=
  match Item.ofTokens stream.tokens with
  | [] => do
    Diagnosed.note stream.finish .unexpectedEnd
    pure (.error "")
  | .stray token :: _ => do
    Diagnosed.note token .strayParen
    pure (.error "")
  | .form datum unclosed :: rest => do
    let _ ← Diagnosed.sequence (unclosed.map fun token => Diagnosed.note token .unclosedParen)
    let type ← ofDatum datum
    match rest with
    | [] => pure ()
    | item :: _ => Diagnosed.note item.token (.afterType item.token.literal)
    pure type

def ofSource (source : String) : Parsed := ofStream (.ofSource "" source)

end TypedForms.Ty
