/-! Tokens: a kind, the text it was read from, and where that text starts. -/
namespace TypedForms

inductive Keyword where
  | define | letForm | letrec | lambda | ifForm | cons | car | cdr | list | null | ref | deref
  | assign | free | read | eval | unit
  deriving DecidableEq

namespace Keyword

def all : List Keyword :=
  [.define, .letForm, .letrec, .lambda, .ifForm, .cons, .car, .cdr, .list, .null, .ref, .deref,
   .assign, .free, .read, .eval, .unit]

def spelling : Keyword → String
  | .define => "define"
  | .letForm => "let"
  | .letrec => "letrec"
  | .lambda => "lambda"
  | .ifForm => "if"
  | .cons => "cons"
  | .car => "car"
  | .cdr => "cdr"
  | .list => "list"
  | .null => "null?"
  | .ref => "ref"
  | .deref => "deref"
  | .assign => "set!"
  | .free => "free"
  | .read => "read"
  | .eval => "eval"
  | .unit => "unit"

def ofSpelling? (word : String) : Option Keyword :=
  all.find? (·.spelling == word)

end Keyword

/-- Operators and delimiters. -/
inductive Mark where
  | add | sub | mul | quo | less | greater | equal | lparen | rparen | colon | arrow
  deriving DecidableEq

namespace Mark

def all : List Mark :=
  [.add, .sub, .mul, .quo, .less, .greater, .equal, .lparen, .rparen, .colon, .arrow]

def spelling : Mark → String
  | .add => "+"
  | .sub => "-"
  | .mul => "*"
  | .quo => "/"
  | .less => "<"
  | .greater => ">"
  | .equal => "="
  | .lparen => "("
  | .rparen => ")"
  | .colon => ":"
  | .arrow => "->"

end Mark

namespace Token

/-- The kind of a token. Comments have a kind, though the scanner leaves them out. -/
inductive Kind where
  | illegal
  | eof
  | comment
  | ident
  | number
  | string
  | bool
  | mark (value : Mark)
  | keyword (value : Keyword)
  deriving DecidableEq

namespace Kind

def name : Kind → String
  | .illegal => "ILLEGAL"
  | .eof => "EOF"
  | .comment => "COMMENT"
  | .ident => "IDENT"
  | .number => "NUMBER"
  | .string => "STRING"
  | .bool => "BOOL"
  | .mark m => m.spelling
  | .keyword k => k.spelling

def isKeyword : Kind → Bool
  | .keyword _ => true
  | _ => false

/-- Names and constants. -/
def isLiteral : Kind → Bool
  | .ident | .number | .string | .bool => true
  | _ => false

/-- The numbering of the kinds. Literals, marks and keywords are three blocks with a number
left free before and after each of them. -/
def code : Kind → Nat
  | .illegal => 0
  | .eof => 1
  | .comment => 2
  | .ident => 4
  | .number => 5
  | .string => 6
  | .bool => 7
  | .mark m => 10 + Mark.all.idxOf m
  | .keyword k => 23 + Keyword.all.idxOf k

def all : List Kind :=
  [.illegal, .eof, .comment, .ident, .number, .string, .bool] ++
    Mark.all.map .mark ++ Keyword.all.map .keyword

def ofCode? (n : Int) : Option Kind :=
  all.find? fun kind => (kind.code : Int) == n

/-- The name of a kind by its number, for any number. -/
def nameOfCode (n : Int) : String :=
  match ofCode? n with
  | some kind => kind.name
  | none => "token(" ++ toString n ++ ")"

/-- The kind of a word that is neither a mark nor a constant. -/
def ofWord (word : String) : Kind :=
  match Keyword.ofSpelling? word with
  | some k => .keyword k
  | none => .ident

end Kind

end Token

/-- A place in a named source; lines and columns count from one. Trees that were not read from
a source may carry any numbers. -/
structure Position where
  file : String
  line : Int
  column : Int
  deriving DecidableEq

namespace Position

/-- The file name is left out when it is empty. -/
def render (pos : Position) : String :=
  let place := toString pos.line ++ ":" ++ toString pos.column
  if pos.file == "" then place else pos.file ++ ":" ++ place

def start (file : String) : Position := ⟨file, 1, 1⟩

/-- The place after a character that stands at `pos`. -/
def advance (pos : Position) (c : Char) : Position :=
  if c = '\n' then { pos with line := pos.line + 1, column := 1 }
  else { pos with column := pos.column + 1 }

end Position

structure Token where
  kind : Token.Kind
  literal : String
  pos : Position
  deriving DecidableEq

namespace Token

/-- The anchor of what has no place in any source. -/
def nowhere : Token := ⟨.illegal, "", ⟨"", 0, 0⟩⟩

end Token

end TypedForms
