import TypedForms.Yaml.Word

/-! From texts to tokens. A scalar or a collection is a key if a colon follows it on its own line;
only then the tokens in front of a key are known. So tokens are given out late: each waits for two
more, and one that may still turn out to be a key waits for its line to end. What is wrong with a
text after its first document matters only as far as tokens of the document wait for it. -/
namespace TypedForms.Yaml

/-- Where a key might have started on the current level of brackets, and the number of the token
that would come after its key token. A key that stands at the column of its block is required:
there must be a colon after it. -/
structure Key where
  mark : Mark
  token : Nat
  isPossible : Bool
  isRequired : Bool

/-- A text in the course of being scanned. The tokens are kept in reverse and numbered from zero;
those with numbers below `given` have been given out. Tokens in `awaited` may become keys. The
columns of the blocks around the spot and the keys of the levels of brackets around it start with
the innermost one; the last level is outside of all brackets. -/
structure Scanner where
  spot : Spot
  isWhole : Bool
  marksLines : Bool
  tokens : List Token
  count : Nat
  given : Nat
  awaited : List Nat
  indents : List Nat
  keys : List Key
  keyAllowed : Bool

namespace Scanner

/-- A text that starts with a second byte order mark has a mark at the start of each line. -/
def ofSource (source : Source) : Scanner :=
  let noKey : Key := ⟨⟨0, 0, 0⟩, 0, false, false⟩
  ⟨.start source.chars, source.isWhole, source.chars.head? == some byteOrderMark, [], 0, 0, [], [],
    [noKey], true⟩

def inFlow (s : Scanner) : Bool := !(s.keys.drop 1).isEmpty

/-- The number of levels that brackets or blocks may have. -/
def depthLimit : Nat := 10000

/-- The number of characters that a key may have. -/
def keyLimit : Nat := 1024

def fail (s : Scanner) (start : Nat) (cause : Cause) : Except Problem α :=
  .error (.inToken start s.spot.line cause)

def add (s : Scanner) (kind : Token.Kind) (line : Nat) : Scanner :=
  { s with tokens := ⟨kind, line⟩ :: s.tokens, count := s.count + 1 }

/-- Puts a token in front of the one with a number, or last if that one has been given out. -/
def addBefore (s : Scanner) (number : Nat) (kind : Token.Kind) (line : Nat) : Scanner :=
  if number < s.given then s.add kind line
  else
    let later := s.count - number
    { s with
      tokens := s.tokens.take later ++ ⟨kind, line⟩ :: s.tokens.drop later
      count := s.count + 1 }

def skip (s : Scanner) (count : Nat) : Scanner := { s with spot := s.spot.skip count }

/-- Whether a key can still get its colon at the spot. -/
def accepts (s : Scanner) (key : Key) : Except Problem Bool :=
  if !key.isPossible then .ok false
  else if key.mark.line < s.spot.line || key.mark.index + keyLimit < s.spot.index then
    if key.isRequired then s.fail key.mark.line .missingColon else .ok false
  else .ok true

/-- Gives up the key of the current level. -/
def dropKey (s : Scanner) : Except Problem Scanner :=
  match s.keys with
  | [] => .ok s
  | key :: keys =>
    if !key.isPossible then .ok s
    else if key.isRequired then s.fail key.mark.line .missingColon
    else
      .ok { s with
        keys := { key with isPossible := false } :: keys
        awaited := s.awaited.filter (· != key.token) }

/-- Takes the spot for the start of a key, if one may start here. -/
def saveKey (s : Scanner) : Except Problem Scanner :=
  if s.keyAllowed then do
    let isRequired := !s.inFlow && s.indents.head? == some s.spot.column
    let s ← s.dropKey
    .ok { s with
      keys := ⟨s.spot.toMark, s.count, true, isRequired⟩ :: s.keys.tail
      awaited := s.count :: s.awaited }
  else .ok s

/-- Starts a block at a column, if the blocks around it stand further out. -/
def openBlock (s : Scanner) (column : Nat) (kind : Token.Kind) (line : Nat) (number : Option Nat) :
    Except Problem Scanner :=
  if s.inFlow || s.indents.head?.any (column ≤ ·) then .ok s
  else if s.indents.length + 1 > depthLimit then s.fail s.spot.line .tooDeep
  else
    let s := match number with
      | some number => s.addBefore number kind line
      | none => s.add kind line
    .ok { s with indents := column :: s.indents }

/-- Ends some of the innermost blocks. -/
def closeBlocks : (count : Nat) → (line : Nat) → Scanner → Scanner
  | 0, _, s => s
  | count + 1, line, s =>
    closeBlocks count line { s.add .blockEnd line with indents := s.indents.tail }

/-- Ends the blocks that stand further in than a column. -/
def leaveColumn (s : Scanner) (column line : Nat) : Scanner :=
  if s.inFlow then s else closeBlocks (s.indents.takeWhile (column < ·)).length line s

/-- Ends all blocks and gives up the key, at the end of a document. -/
def leaveAll (s : Scanner) : Except Problem Scanner := do
  let s := if s.inFlow then s else closeBlocks s.indents.length s.spot.line s
  let s ← s.dropKey
  .ok { s with keyAllowed := false }

/-- What a gap between tokens is in the middle of. -/
inductive GapPart where
  | space | comment | comments

/-- Whether only blanks and line feeds stand between the end of a comment and another one. -/
def leadsToComment (rest : List Char) : Bool :=
  let between := rest.takeWhile fun c => isBlank c || c == '\n'
  between.length ≤ 510 && (rest.drop between.length).head? == some '#'

/-- Takes blanks, comments and line ends. Outside of brackets a key may start after a line end, and
where a key may start, tabs are no blanks except between comments. The result is the number of
characters taken, and whether a key may start after them. `skipsMark` tells that a mark stands at
the start of the line. -/
def gap (inFlow marksLines : Bool) :
    GapPart → (skipsMark keyAllowed : Bool) → List Char → (count : Nat) → Nat × Bool
  | _, _, keyAllowed, [], count => (count, keyAllowed)
  | .comment, _, keyAllowed, c :: rest, count =>
    if !isBreak c then gap inFlow marksLines .comment false keyAllowed rest (count + 1)
    else if c == '\n' && leadsToComment rest then
      gap inFlow marksLines .comments false keyAllowed rest (count + 1)
    else gap inFlow marksLines .space marksLines (keyAllowed || !inFlow) rest (count + 1)
  | .comments, _, keyAllowed, c :: rest, count =>
    let part := if c == '#' then .comment else .comments
    gap inFlow marksLines part false keyAllowed rest (count + 1)
  | .space, skipsMark, keyAllowed, c :: rest, count =>
    if skipsMark then gap inFlow marksLines .space false keyAllowed rest (count + 1)
    else if c == ' ' || (c == '\t' && (inFlow || !keyAllowed)) then
      gap inFlow marksLines .space false keyAllowed rest (count + 1)
    else if c == '#' then gap inFlow marksLines .comment false keyAllowed rest (count + 1)
    else if isBreak c then
      gap inFlow marksLines .space marksLines (keyAllowed || !inFlow) rest (count + 1)
    else (count, keyAllowed)

/-- Goes to the next token. -/
def skipGap (s : Scanner) : Scanner :=
  let (count, keyAllowed) :=
    gap s.inFlow s.marksLines .space (s.marksLines && s.spot.column == 0) s.keyAllowed s.spot.rest 0
  { s.skip count with keyAllowed := keyAllowed }

/-- Takes a comment after a token on the same line, with the blanks in front of it. -/
def skipComment (s : Scanner) : Scanner :=
  let blanks := (s.spot.rest.takeWhile isBlank).length
  let tail := s.spot.rest.drop blanks
  if !s.spot.isFresh && blanks < 512 && tail.head? == some '#' then
    s.skip (blanks + (tail.takeWhile fun c => !isBreak c).length)
  else s

/-- Adds a token that a number of characters at the spot stand for. -/
def take (s : Scanner) (kind : Token.Kind) (count : Nat) : Scanner :=
  (s.add kind s.spot.line).skip count

def takeFlowStart (s : Scanner) (kind : Token.Kind) : Except Problem Scanner := do
  let s ← s.saveKey
  let level : Key := ⟨s.spot.toMark, s.count, false, false⟩
  if s.keys.length > depthLimit then s.fail s.spot.line .tooDeep
  else .ok { s.take kind 1 with keys := level :: s.keys, keyAllowed := true }

/-- A level of brackets that ends takes with it the wait for the key that it started with, if no
key could start inside. -/
def takeFlowEnd (s : Scanner) (kind : Token.Kind) : Except Problem Scanner := do
  let s ← s.dropKey
  let s := match s.keys with
    | level :: outer :: keys =>
      { s with keys := outer :: keys, awaited := s.awaited.filter (· != level.token) }
    | _ => s
  .ok { s.take kind 1 with keyAllowed := false }

def takeFlowEntry (s : Scanner) : Except Problem Scanner := do
  let s ← s.dropKey
  .ok { s.take .flowEntry 1 with keyAllowed := true }

def takeBlockEntry (s : Scanner) : Except Problem Scanner := do
  if !s.inFlow && !s.keyAllowed then s.fail s.spot.line .entryNotAllowed
  else
    let s ← s.openBlock s.spot.column .blockSequenceStart s.spot.line none
    let s ← s.dropKey
    .ok { s.take .blockEntry 1 with keyAllowed := true }

def takeKey (s : Scanner) : Except Problem Scanner := do
  if !s.inFlow && !s.keyAllowed then s.fail s.spot.line .keyNotAllowed
  else
    let s ← s.openBlock s.spot.column .blockMappingStart s.spot.line none
    let s ← s.dropKey
    .ok { s.take .key 1 with keyAllowed := !s.inFlow }

/-- Takes a colon. If a key is open, its tokens are put in front of what it started with. -/
def takeValue (s : Scanner) : Except Problem Scanner := do
  match s.keys with
  | [] => .ok s
  | key :: keys =>
    if ← s.accepts key then
      let s := s.addBefore key.token .key key.mark.line
      let s ← s.openBlock key.mark.column .blockMappingStart key.mark.line (some key.token)
      let s := { s with
        keys := { key with isPossible := false } :: keys
        awaited := s.awaited.filter (· != key.token) }
      .ok { s.take .value 1 with keyAllowed := false }
    else if !s.inFlow && !s.keyAllowed then s.fail s.spot.line .valueNotAllowed
    else
      let s ← s.openBlock s.spot.column .blockMappingStart s.spot.line none
      .ok { s.take .value 1 with keyAllowed := !s.inFlow }

/-- The outcome of reading a token that starts at the spot. -/
def lift (s : Scanner) (result : Except Cause α) : Except Problem α :=
  match result with
  | .ok a => .ok a
  | .error cause => s.fail s.spot.line cause

def takeAnchor (s : Scanner) (kind : String → Token.Kind) (rest : List Char) :
    Except Problem Scanner := do
  let s ← s.saveKey
  let (name, count) ← s.lift (anchorName rest)
  .ok { s.take (kind name) (count + 1) with keyAllowed := false }

def takeTag (s : Scanner) (rest : List Char) : Except Problem Scanner := do
  let s ← s.saveKey
  let (handle, suffix, count) ← s.lift (tagWord rest)
  .ok { s.take (.tag handle suffix) (count + 1) with keyAllowed := false }

def takeBlockScalar (s : Scanner) (isLiteral : Bool) (rest : List Char) :
    Except Problem Scanner := do
  let s ← s.dropKey
  let (text, count) ← s.lift (blockText isLiteral s.indents rest)
  .ok { s.take (.scalar false (String.ofList text)) (count + 1) with keyAllowed := true }

def takeQuoted (s : Scanner) (text : Except Cause (List Char × Nat)) :
    Except Problem Scanner := do
  let s ← s.saveKey
  let (text, count) ← s.lift text
  .ok { s.take (.scalar false (String.ofList text)) (count + 1) with keyAllowed := false }

def takePlain (s : Scanner) : Except Problem Scanner := do
  let s ← s.saveKey
  let indent := s.indents.head?.elim 0 (· + 1)
  let plain ← s.lift (plainText s.inFlow indent s.spot.rest s.spot.column .none [] 0)
  .ok { s.take (.scalar true (String.ofList plain.text)) plain.count with
    keyAllowed := plain.isBroken }

/-- Characters that cannot start a plain scalar. -/
def isIndicator (c : Char) : Bool :=
  [',', '[', ']', '\x7b', '\x7d', '#', '&', '*', '!', '|', '>', '\'', '"', '%', '@',
    '\x60'].contains c

/-- Whether a plain scalar starts here. A dash, question mark or colon needs more of a word after
it, and inside of brackets only the dash may start one. -/
def startsPlain (inFlow : Bool) (c : Char) (rest : List Char) : Bool :=
  if c == '-' then !endsWord rest
  else if c == '?' || c == ':' then !inFlow && !endsWord rest
  else !isIndicator c && !endsWord (c :: rest)

/-- Takes the token that starts with a character. -/
def takeToken (s : Scanner) (c : Char) (rest : List Char) : Except Problem Scanner :=
  if c == '[' then s.takeFlowStart .flowSequenceStart
  else if c == '\x7b' then s.takeFlowStart .flowMappingStart
  else if c == ']' then s.takeFlowEnd .flowSequenceEnd
  else if c == '\x7d' then s.takeFlowEnd .flowMappingEnd
  else if c == ',' then s.takeFlowEntry
  else if c == '?' && (s.inFlow || endsWord rest) then s.takeKey
  else if c == ':' && (s.inFlow || endsWord rest) then s.takeValue
  else if c == '*' then s.takeAnchor .alias rest
  else if c == '&' then s.takeAnchor .anchor rest
  else if c == '!' then s.takeTag rest
  else if c == '|' && !s.inFlow then s.takeBlockScalar true rest
  else if c == '>' && !s.inFlow then s.takeBlockScalar false rest
  else if c == '\'' then s.takeQuoted (singleQuoted rest (s.spot.column + 1) .none [] 0)
  else if c == '"' then s.takeQuoted (doubleQuoted rest (s.spot.column + 1) .none [] 0)
  else if startsPlain s.inFlow c rest then s.takePlain
  else s.fail s.spot.line .unexpectedCharacter

def takeMarker (s : Scanner) (kind : Token.Kind) : Except Problem Scanner := do
  let s ← s.leaveAll
  .ok (s.take kind 3)

def takeDirective (s : Scanner) (rest : List Char) : Except Problem Scanner := do
  let s ← s.leaveAll
  let (kind, count) ← s.lift (directive rest)
  .ok (s.take kind (count + 1))

/-- Takes the end of the text. -/
def takeEnd (s : Scanner) : Except Problem Scanner := do
  let line := if s.spot.column = 0 then s.spot.line else s.spot.line + 1
  let s := { s with spot := ⟨⟨s.spot.index, line, 0⟩, [], s.spot.isFresh⟩ }
  let s ← s.leaveAll
  .ok (s.add .streamEnd line)

/-- Takes the tokens up to the next one that has characters of its own. Four characters must be
known where a token starts, and one after it. -/
def step (s : Scanner) : Except Problem Scanner := do
  let before := s.spot.line
  let s := s.skipGap
  let s := s.leaveColumn s.spot.column before
  let isShort := (s.spot.rest.drop 3).isEmpty
  let s := { s with marksLines := s.marksLines && !isShort }
  if isShort && !s.isWhole then .error (.anywhere .forbiddenCharacter)
  else match s.spot.rest with
    | [] => s.takeEnd
    | c :: rest => do
      let s ←
        if s.spot.column == 0 && c == '%' then s.takeDirective rest
        else if s.spot.atMarker then
          s.takeMarker (if c == '-' then .documentStart else .documentEnd)
        else if c == '-' && endsWord rest then s.takeBlockEntry
        else (s.takeToken c rest).map skipComment
      if s.spot.rest.isEmpty && !s.isWhole then .error (.anywhere .forbiddenCharacter) else .ok s

/-- Gives out tokens as long as each has two more after it and cannot become a key. -/
def giveOut : (fuel : Nat) → Scanner → Scanner × Option Problem
  | 0, s => (s, none)
  | fuel + 1, s =>
    if s.given + 3 > s.count then (s, none)
    else
      let key? := s.keys.find? fun key => key.isPossible && key.token == s.given
      let awaited := s.awaited.contains s.given
      match if awaited then key?.elim (.ok false) s.accepts else .ok false with
      | .error problem => (s, some problem)
      | .ok true => (s, none)
      | .ok false => giveOut fuel { s with given := s.given + 1 }

end Scanner

/-- The tokens of a text that can be given out. If something is wrong with the text, they end
before the token that waits for it. -/
structure Tokens where
  list : List Token
  problem : Option Problem

namespace Tokens

def scan : (fuel : Nat) → Scanner → Tokens
  | 0, s => ⟨s.tokens.reverse, none⟩
  | fuel + 1, s =>
    match s.giveOut s.count with
    | (s, some problem) => ⟨s.tokens.reverse.take s.given, some problem⟩
    | (s, none) =>
      match s.step with
      | .error problem => ⟨s.tokens.reverse.take s.given, some problem⟩
      | .ok next =>
        if (next.tokens.head?.map (·.kind)) = some .streamEnd then ⟨next.tokens.reverse, none⟩
        else scan fuel next

def ofSource (source : Source) : Tokens :=
  scan (source.chars.length + 1) (.ofSource source)

end Tokens

end TypedForms.Yaml
