import TypedForms.Yaml.Problem
import TypedForms.Yaml.Spot

/-! The texts of scalars. Line ends inside of plain and quoted scalars are folded: one of them
reads as a blank, and of several all but the first are kept. All readers tell how many characters
they have taken; the texts so far are kept in reverse. -/
namespace TypedForms.Yaml

/-- Blanks and line ends between two words. Line ends start with one that may be escaped, and then
does not count. -/
inductive Gap where
  | blanks (text : List Char)
  | breaks (first : Option Char) (others : List Char)

namespace Gap

def none : Gap := .blanks []

def push (c : Char) : Gap → Gap
  | .blanks text => if isBreak c then .breaks (some (breakChar c)) [] else .blanks (text ++ [c])
  | .breaks first others =>
    if isBreak c then .breaks first (others ++ [breakChar c]) else .breaks first others

/-- What stands for the gap in the text of a scalar. -/
def folded : Gap → List Char
  | .blanks text => text
  | .breaks (some c) others =>
    if c == '\n' then if others.isEmpty then [' '] else others else c :: others
  | .breaks Option.none others => others

def isEmpty : Gap → Bool
  | .blanks text => text.isEmpty
  | .breaks .. => false

def hasBreak : Gap → Bool
  | .blanks _ => false
  | .breaks .. => true

end Gap

/-- A plain scalar, and whether line ends follow it that were taken as well. -/
structure PlainText where
  text : List Char
  count : Nat
  isBroken : Bool

/-- Whether a plain scalar ends before a character. -/
def endsPlain (inFlow : Bool) (c : Char) (rest : List Char) : Bool :=
  (c == ':' && endsWord rest) ||
    (inFlow && (c == ',' || c == '?' || c == '[' || c == ']' || c == '\x7b' || c == '\x7d'))

/-- Reads a plain scalar. Outside of brackets it goes on over lines that are indented to the column
`indent` at least. -/
def plainText (inFlow : Bool) (indent : Nat) :
    List Char → (column : Nat) → Gap → (text : List Char) → (count : Nat) →
    Except Cause PlainText
  | [], _, gap, text, count => .ok ⟨text.reverse, count, gap.hasBreak⟩
  | c :: rest, column, gap, text, count =>
    if isBreak c then plainText inFlow indent rest 0 (gap.push c) text (count + 1)
    else if isBlank c then
      if c == '\t' && gap.hasBreak && column < indent then .error .tabInPlain
      else plainText inFlow indent rest (column + 1) (gap.push c) text (count + 1)
    else if !gap.isEmpty && ((!inFlow && column < indent) ||
        (column == 0 && isMarker (c :: rest)) || c == '#') then
      .ok ⟨text.reverse, count, gap.hasBreak⟩
    else if endsPlain inFlow c rest then .ok ⟨text.reverse, count, gap.hasBreak⟩
    else
      plainText inFlow indent rest (column + 1) .none (c :: gap.folded.reverse ++ text) (count + 1)

/-- Reads on after an opening single quote; a quote inside is doubled. -/
def singleQuoted :
    List Char → (column : Nat) → Gap → (text : List Char) → (count : Nat) →
    Except Cause (List Char × Nat)
  | [], _, _, _, _ => .error .openQuotes
  | c :: rest, column, gap, text, count =>
    if isBreak c then singleQuoted rest 0 (gap.push c) text (count + 1)
    else if isBlank c then singleQuoted rest (column + 1) (gap.push c) text (count + 1)
    else if column == 0 && isMarker (c :: rest) then .error .markerInQuotes
    else
      let text := gap.folded.reverse ++ text
      if c == '\'' then
        match rest with
        | '\'' :: rest => singleQuoted rest (column + 2) .none ('\'' :: text) (count + 2)
        | _ => .ok (text.reverse, count + 1)
      else singleQuoted rest (column + 1) .none (c :: text) (count + 1)

/-- Escapes of one character between double quotes. -/
def escapeOf? (c : Char) : Option Char :=
  match c with
  | '0' => some '\x00'
  | 'a' => some '\x07'
  | 'b' => some '\x08'
  | 't' => some '\t'
  | '\t' => some '\t'
  | 'n' => some '\n'
  | 'v' => some '\x0b'
  | 'f' => some '\x0c'
  | 'r' => some '\r'
  | 'e' => some '\x1b'
  | ' ' => some ' '
  | '"' => some '"'
  | '\'' => some '\''
  | '\\' => some '\\'
  | 'N' => some (Char.ofNat 0x85)
  | '_' => some (Char.ofNat 0xa0)
  | 'L' => some (Char.ofNat 0x2028)
  | 'P' => some (Char.ofNat 0x2029)
  | _ => none

def hexDigit? (c : Char) : Option Nat :=
  if '0' ≤ c && c ≤ '9' then some (c.toNat - '0'.toNat)
  else if 'a' ≤ c && c ≤ 'f' then some (c.toNat - 'a'.toNat + 10)
  else if 'A' ≤ c && c ≤ 'F' then some (c.toNat - 'A'.toNat + 10)
  else none

/-- The character with a code in hexadecimal digits. -/
def charOfHex (digits : List Char) : Except Cause Char :=
  match digits.mapM hexDigit? with
  | none => .error .noHexDigits
  | some values =>
    let n := values.foldl (fun n value => n * 16 + value) 0
    if n < 0xd800 || (0xe000 ≤ n && n < 0x110000) then .ok (Char.ofNat n)
    else .error .badCodePoint

/-- Reads on after an opening double quote. -/
def doubleQuoted :
    List Char → (column : Nat) → Gap → (text : List Char) → (count : Nat) →
    Except Cause (List Char × Nat)
  | [], _, _, _, _ => .error .openQuotes
  | c :: rest, column, gap, text, count =>
    if isBreak c then doubleQuoted rest 0 (gap.push c) text (count + 1)
    else if isBlank c then doubleQuoted rest (column + 1) (gap.push c) text (count + 1)
    else if column == 0 && isMarker (c :: rest) then .error .markerInQuotes
    else
      let text := gap.folded.reverse ++ text
      if c == '"' then .ok (text.reverse, count + 1)
      else if c == '\\' then
        match rest with
        | 'x' :: c0 :: c1 :: rest =>
          match charOfHex [c0, c1] with
          | .ok char => doubleQuoted rest (column + 4) .none (char :: text) (count + 4)
          | .error cause => .error cause
        | 'u' :: c0 :: c1 :: c2 :: c3 :: rest =>
          match charOfHex [c0, c1, c2, c3] with
          | .ok char => doubleQuoted rest (column + 6) .none (char :: text) (count + 6)
          | .error cause => .error cause
        | 'U' :: c0 :: c1 :: c2 :: c3 :: c4 :: c5 :: c6 :: c7 :: rest =>
          match charOfHex [c0, c1, c2, c3, c4, c5, c6, c7] with
          | .ok char => doubleQuoted rest (column + 10) .none (char :: text) (count + 10)
          | .error cause => .error cause
        | letter :: rest =>
          if isBreak letter then
            doubleQuoted rest 0 (.breaks Option.none []) text (count + 2)
          else if letter == 'x' || letter == 'u' || letter == 'U' then .error .noHexDigits
          else match escapeOf? letter with
            | some char => doubleQuoted rest (column + 2) .none (char :: text) (count + 2)
            | none => .error .unknownEscape
        | [] => .error .unknownEscape
      else doubleQuoted rest (column + 1) .none (c :: text) (count + 1)

/-- How a block scalar treats the line ends after its last line. -/
inductive Chomping where
  | strip | clip | keep
  deriving DecidableEq

/-- The indicators after `|` or `>`: what to do with the last line ends, and the indentation if
it is given. -/
structure BlockHeader where
  chomping : Chomping
  increment : Option Nat
  count : Nat

def chompingOf? (c : Char) : Option Chomping :=
  if c == '+' then some .keep else if c == '-' then some .strip else none

def incrementOf? (c : Char) : Option Nat :=
  if '0' ≤ c && c ≤ '9' then some (c.toNat - '0'.toNat) else none

/-- The two indicators may come in either order. -/
def indicators (rest : List Char) : BlockHeader :=
  match rest with
  | [] => ⟨.clip, none, 0⟩
  | a :: more =>
    match chompingOf? a, incrementOf? a with
    | some chomping, _ =>
      match more.head?.bind incrementOf? with
      | some increment => ⟨chomping, some increment, 2⟩
      | none => ⟨chomping, none, 1⟩
    | none, some increment =>
      match more.head?.bind chompingOf? with
      | some chomping => ⟨chomping, some increment, 2⟩
      | none => ⟨.clip, some increment, 1⟩
    | none, none => ⟨.clip, none, 0⟩

/-- The number of characters up to the end of the line, which must be blank but for a comment. -/
def blankTail (rest : List Char) : Except Cause Nat :=
  let blanks := (rest.takeWhile isBlank).length
  let tail := rest.drop blanks
  let comment :=
    if tail.head? == some '#' then (tail.takeWhile fun c => !isBreak c).length else 0
  if endsLine (tail.drop comment) then .ok (blanks + comment) else .error .noCommentOrBreak

/-- The header of a block scalar with the rest of its line, and the line end if there is one. -/
def blockHeader (rest : List Char) : Except Cause BlockHeader := do
  let header := indicators rest
  if header.increment = some 0 then .error .zeroIndent
  else
    let tail := rest.drop header.count
    let blank ← blankTail tail
    let lineEnd := if (tail.drop blank).isEmpty then 0 else 1
    .ok { header with count := header.count + blank + lineEnd }

/-- A block scalar in the making: its text, the line end of its last line, the line ends after
that, and whether the last line started with a blank. -/
structure BlockText where
  text : List Char
  lineEnd : Option Char
  others : List Char
  startedBlank : Bool

namespace BlockText

def empty : BlockText := ⟨[], none, [], false⟩

/-- Starts a line with a character. Between two lines that do not start with a blank, a folded
scalar has its line ends folded. -/
def startLine (isLiteral : Bool) (b : BlockText) (c : Char) : BlockText :=
  let joint :=
    if !isLiteral && !b.startedBlank && !isBlank c && b.lineEnd == some '\n' then
      if b.others.isEmpty then [' '] else []
    else b.lineEnd.toList
  ⟨c :: b.others ++ joint ++ b.text, none, [], isBlank c⟩

def finish (b : BlockText) (chomping : Chomping) : List Char :=
  let tail := match chomping with
    | .strip => []
    | .clip => b.lineEnd.toList
    | .keep => b.lineEnd.toList ++ b.others.reverse
  b.text.reverse ++ tail

end BlockText

/-- The indentation of a block scalar that does not give it: that of the first line with something
on it, or of a longer blank line before that, and `atLeast` at least. -/
def detectIndent (atLeast : Nat) : List Char → (column : Nat) → Except Cause Nat
  | [], column => .ok (max atLeast column)
  | c :: rest, column =>
    if c == ' ' then detectIndent atLeast rest (column + 1)
    else if c == '\t' then .error .tabInIndent
    else if isBreak c then detectIndent (max atLeast column) rest 0
    else .ok (max atLeast column)

/-- Reads the lines of a block scalar. -/
def blockLines (isLiteral : Bool) (indent : Nat) :
    List Char → (column : Nat) → (inLine : Bool) → BlockText → (count : Nat) →
    Except Cause (BlockText × Nat)
  | [], _, _, b, count => .ok (b, count)
  | c :: rest, column, inLine, b, count =>
    if inLine then
      if isBreak c then
        blockLines isLiteral indent rest 0 false { b with lineEnd := some (breakChar c) }
          (count + 1)
      else
        blockLines isLiteral indent rest (column + 1) true { b with text := c :: b.text }
          (count + 1)
    else if isBreak c then
      blockLines isLiteral indent rest 0 false { b with others := breakChar c :: b.others }
        (count + 1)
    else if indent ≤ column then
      blockLines isLiteral indent rest (column + 1) true (b.startLine isLiteral c) (count + 1)
    else if c == ' ' then blockLines isLiteral indent rest (column + 1) false b (count + 1)
    else if c == '\t' then .error .tabInIndent
    else .ok (b, count)

/-- Reads a block scalar after its indicator. The blocks around it stand at the columns `indents`,
the innermost one first. -/
def blockText (isLiteral : Bool) (indents : List Nat) (rest : List Char) :
    Except Cause (List Char × Nat) := do
  let header ← blockHeader rest
  let body := rest.drop header.count
  let indent ← match header.increment with
    | some increment => .ok (indents.head?.getD 0 + increment)
    | none => detectIndent (max 1 (indents.head?.elim 0 (· + 1))) body 0
  let (b, count) ← blockLines isLiteral indent body 0 false .empty 0
  .ok (b.finish header.chomping, header.count + count)

end TypedForms.Yaml
