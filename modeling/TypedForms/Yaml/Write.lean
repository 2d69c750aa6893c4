import TypedForms.Text.Quoted
import TypedForms.Yaml.Spot

/-! Texts as scalars of a document. A text with line feeds is written as lines of its own; one on a
single line stands in quotes if it would be taken for something else than a text. -/
namespace TypedForms.Yaml

inductive Style where
  | plain | singleQuoted | doubleQuoted | lines
  deriving DecidableEq

namespace Style

/-- Characters that only double quotes can hold, by an escape. -/
def isSpecial (c : Char) : Bool :=
  !(c = '\n' || (' ' ≤ c && c ≤ '~') ||
    (0xa0 ≤ c.toNat && c.toNat ≤ 0xfffd && c.toNat ≠ 0xfeff))

/-- Whether a colon is followed by a blank or by nothing. -/
def hasColonBlank : List Char → Bool
  | [] => false
  | [c] => c = ':'
  | c :: d :: rest => (c = ':' && isBlank d) || hasColonBlank (d :: rest)

/-- Whether a character with one property is followed by one with another. -/
def hasPair (first second : Char → Bool) : List Char → Bool
  | c :: d :: rest => (first c && second d) || hasPair first second (d :: rest)
  | _ => false

/-- Whether a space stands in front of a line end. -/
def hasSpaceBreak (text : List Char) : Bool := hasPair (· = ' ') isBreak text

def hasBreakSpace (text : List Char) : Bool := hasPair isBreak (· = ' ') text

/-- How a text is written. -/
def ofText (text : List Char) : Style :=
  if text.contains '\n' then
    if text.getLast? = some ' ' || hasSpaceBreak text || text.any (fun c => c ≠ '\t' && isSpecial c)
    then .doubleQuoted
    else .lines
  else if text ≠ ['?'] && !hasColonBlank text then .plain
  else if hasSpaceBreak text || hasBreakSpace text || text.any isSpecial then .doubleQuoted
  else .singleQuoted

end Style

/-- Characters that have an escape letter of their own. -/
def escapeLetters : List (Nat × Char) :=
  [(0x0, '0'), (0x7, 'a'), (0x8, 'b'), (0x9, 't'), (0xa, 'n'), (0xb, 'v'), (0xc, 'f'), (0xd, 'r'),
   (0x1b, 'e'), (0x22, '"'), (0x5c, '\\'), (0x85, 'N'), (0x2028, 'L'), (0x2029, 'P')]

/-- A character between double quotes. -/
def escaped (c : Char) : List Char :=
  let digits (letter : Char) (width : Nat) :=
    '\\' :: letter :: (Text.hexDigits width c.toNat).map Char.toUpper
  if !Style.isSpecial c && !isBreak c && c ≠ '"' && c ≠ '\\' then [c]
  else match escapeLetters.lookup c.toNat with
    | some letter => ['\\', letter]
    | none =>
      if c.toNat ≤ 0xff then digits 'x' 2
      else if c.toNat ≤ 0xffff then digits 'u' 4
      else digits 'U' 8

/-- Writes text with blanks in front of each line that is not empty. -/
def indented (blanks : List Char) (write : Char → List Char) :
    (isFresh : Bool) → List Char → List Char
  | _, [] => []
  | isFresh, c :: rest =>
    if isBreak c then c :: indented blanks write true rest
    else (if isFresh then blanks else []) ++ write c ++ indented blanks write false rest

/-- What tells how many line ends there are behind the last line of a text. -/
def ending (text : List Char) : List Char :=
  match text.reverse with
  | c :: d :: _ => if !isBreak c then ['-'] else if isBreak d then ['+'] else []
  | _ => ['-']

/-- Writes a text as the value of an entry, with its line end. Further lines start with some
blanks. -/
def writeText (indent : Nat) (text : List Char) : List Char :=
  let blanks := List.replicate indent ' '
  match Style.ofText text with
  | .plain => text ++ ['\n']
  | .singleQuoted =>
    '\'' :: indented blanks (fun c => if c = '\'' then [c, c] else [c]) false text ++ ['\'', '\n']
  | .doubleQuoted => '"' :: text.flatMap escaped ++ ['"', '\n']
  | .lines =>
    '|' :: ending text ++ '\n' :: indented blanks (fun c => [c]) true text ++
      if text.getLast?.any isBreak then [] else ['\n']

end TypedForms.Yaml
