import TypedForms.Token

/-! Scanning: the characters of a source are taken one by one, and each moves the
scanner from one state to the next, so that a scan of a text is a left fold. Blanks and
comments are left out. Text that is no token of the language is kept as an illegal token. -/
namespace TypedForms

namespace Token

/-- Characters of names, numbers and operators. -/
def isSymbolChar (c : Char) : Bool :=
  !(c == '\x00' || c == ' ' || c == '\t' || c == '\n' || c == '\r' || c == '(' || c == ')' ||
    c == '"' || c == ';' || c == ':')

def isDigit (c : Char) : Bool := '0' ≤ c && c ≤ '9'

/-- An optional sign, then digits with at most one decimal point: at least one digit. -/
def isNumber (symbol : List Char) : Bool :=
  let unsigned := match symbol with
    | '-' :: rest => rest
    | '+' :: rest => rest
    | rest => rest
  unsigned.all (fun c => isDigit c || c == '.') && unsigned.any isDigit &&
    unsigned.count '.' ≤ 1

/-- Marks that are written with symbol characters. -/
def operatorOf? (word : String) : Option Mark :=
  [Mark.add, .sub, .mul, .quo, .less, .greater, .equal, .arrow].find? (·.spelling == word)

def symbolKind (symbol : List Char) : Kind :=
  let word := String.ofList symbol
  if symbol.head? == some '#' then
    if word == "#t" || word == "#f" then .bool else .illegal
  else match operatorOf? word with
    | some mark => .mark mark
    | none => if isNumber symbol then .number else .ofWord word

/-- The character that `\c` stands for between quotes. -/
def unescape (c : Char) : Char :=
  if c = 'n' then '\n' else if c = 't' then '\t' else c

end Token

namespace Scanner

/-- What the scanner is inside of. Texts are kept in reverse. -/
inductive Mode where
  | gap
  | comment
  | symbol (start : Position) (text : List Char)
  | string (start : Position) (text : List Char)
  | escape (start : Position) (text : List Char)

end Scanner

/-- The place of the next character, and the finished tokens in reverse. -/
structure Scanner where
  mode : Scanner.Mode
  pos : Position
  tokens : List Token

namespace Scanner

def start (file : String) : Scanner := ⟨.gap, .start file, []⟩

def symbolToken (start : Position) (text : List Char) : Token :=
  ⟨Token.symbolKind text.reverse, String.ofList text.reverse, start⟩

/-- Takes a character that stands between two tokens. -/
def stepGap (c : Char) (pos : Position) (tokens : List Token) : Scanner :=
  let after := pos.advance c
  if c = ' ' ∨ c = '\t' ∨ c = '\n' ∨ c = '\r' then ⟨.gap, after, tokens⟩
  else if c = ';' then ⟨.comment, after, tokens⟩
  else if c = '(' then ⟨.gap, after, ⟨.mark .lparen, "(", pos⟩ :: tokens⟩
  else if c = ')' then ⟨.gap, after, ⟨.mark .rparen, ")", pos⟩ :: tokens⟩
  else if c = ':' then ⟨.gap, after, ⟨.mark .colon, ":", pos⟩ :: tokens⟩
  else if c = '"' then ⟨.string pos [], after, tokens⟩
  else if Token.isSymbolChar c then ⟨.symbol pos [c], after, tokens⟩
  else ⟨.gap, after, ⟨.illegal, c.toString, pos⟩ :: tokens⟩

def step (s : Scanner) (c : Char) : Scanner :=
  let after := s.pos.advance c
  match s.mode with
  | .gap => stepGap c s.pos s.tokens
  | .comment => ⟨if c = '\n' then .gap else .comment, after, s.tokens⟩
  | .symbol start text =>
    if Token.isSymbolChar c then ⟨.symbol start (c :: text), after, s.tokens⟩
    else stepGap c s.pos (symbolToken start text :: s.tokens)
  | .string start text =>
    if c = '"' then ⟨.gap, after, ⟨.string, String.ofList text.reverse, start⟩ :: s.tokens⟩
    else if c = '\\' then ⟨.escape start text, after, s.tokens⟩
    else ⟨.string start (c :: text), after, s.tokens⟩
  | .escape start text => ⟨.string start (Token.unescape c :: text), after, s.tokens⟩

/-- The tokens at the end of the source, in order. An unclosed string is illegal. -/
def finish (s : Scanner) : List Token :=
  match s.mode with
  | .gap | .comment => s.tokens.reverse
  | .symbol start text => (symbolToken start text :: s.tokens).reverse
  | .string start text | .escape start text =>
    (⟨.illegal, String.ofList text.reverse, start⟩ :: s.tokens).reverse

end Scanner

/-- The tokens of a source, and the token that marks its end. -/
structure TokenStream where
  tokens : List Token
  finish : Token

namespace TokenStream

def ofChars (file : String) (source : List Char) : TokenStream :=
  let scanner := source.foldl Scanner.step (.start file)
  ⟨scanner.finish, ⟨.eof, "", scanner.pos⟩⟩

def ofSource (file source : String) : TokenStream := ofChars file source.toList

def toList (stream : TokenStream) : List Token := stream.tokens ++ [stream.finish]

end TokenStream

end TypedForms
