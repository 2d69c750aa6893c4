import TypedForms.Token

/-! Data: tokens grouped by their parentheses. Reading goes through the tokens once, with the
lists that are still open on a stack. -/
namespace TypedForms

/-- One token, or a parenthesised list with its opening parenthesis. -/
inductive Datum where
  | atom (token : Token)
  | list (opening : Token) (elems : List Datum)

namespace Datum

/-- The first token of a datum. -/
def token : Datum → Token
  | .atom token => token
  | .list opening _ => opening

def atomKind? : Datum → Option Token.Kind
  | .atom token => some token.kind
  | .list .. => none

def isAtom (kind : Token.Kind) (d : Datum) : Bool := d.atomKind? == some kind

end Datum

/-- What the reader finds at the top level: a datum, with the parentheses in it that were never
closed (innermost first), or a closing parenthesis that closes nothing. -/
inductive Item where
  | form (datum : Datum) (unclosed : List Token)
  | stray (token : Token)

namespace Item

/-- The first token of an item. -/
def token : Item → Token
  | .form datum _ => datum.token
  | .stray token => token

end Item

/-- The open lists, innermost first, and the items so far. Elements and items are kept in
reverse. -/
structure Reader where
  stack : List (Token × List Datum)
  items : List Item

namespace Reader

def start : Reader := ⟨[], []⟩

/-- Adds a finished datum to the innermost open list. -/
def add (d : Datum) (stack : List (Token × List Datum)) (items : List Item) : Reader :=
  match stack with
  | [] => ⟨[], .form d [] :: items⟩
  | (opening, elems) :: outer => ⟨(opening, d :: elems) :: outer, items⟩

def step (r : Reader) (token : Token) : Reader :=
  match token.kind with
  | .mark .lparen => ⟨(token, []) :: r.stack, r.items⟩
  | .mark .rparen =>
    match r.stack with
    | [] => ⟨[], .stray token :: r.items⟩
    | (opening, elems) :: outer => add (.list opening elems.reverse) outer r.items
  | _ => add (.atom token) r.stack r.items

/-- Closes every open list around a finished datum. -/
def closeAll (d : Datum) : List (Token × List Datum) → Datum
  | [] => d
  | (opening, elems) :: outer => closeAll (.list opening (d :: elems).reverse) outer

def finish (r : Reader) : List Item :=
  match r.stack with
  | [] => r.items.reverse
  | (opening, elems) :: outer =>
    let whole := closeAll (.list opening elems.reverse) outer
    (.form whole (r.stack.map (·.1)) :: r.items).reverse

end Reader

/-- The items that a token sequence consists of. -/
def Item.ofTokens (tokens : List Token) : List Item :=
  (tokens.foldl Reader.step .start).finish

end TypedForms
