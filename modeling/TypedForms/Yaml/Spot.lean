/-! Texts of documents, and places in them. -/
namespace TypedForms.Yaml

/-- A place in a text. Lines and columns count from zero. -/
structure Mark where
  index : Nat
  line : Nat
  column : Nat

/-- A mark and what follows it. At a fresh spot only blanks stand between it and the last line
end. -/
structure Spot extends Mark where
  rest : List Char
  isFresh : Bool

def isBlank (c : Char) : Bool := c == ' ' || c == '\t'

/-- Line feed, next line, line separator and paragraph separator end a line. -/
def isBreak (c : Char) : Bool :=
  c == '\n' || c.toNat == 0x85 || c.toNat == 0x2028 || c.toNat == 0x2029

/-- What a line end is in a scalar: the two separators stay, all else is a line feed. -/
def breakChar (c : Char) : Char := if c.toNat == 0x85 then '\n' else c

/-- Whether nothing or a line end follows. -/
def endsLine : List Char → Bool
  | [] => true
  | c :: _ => isBreak c

/-- Whether nothing or a blank or a line end follows. -/
def endsWord : List Char → Bool
  | [] => true
  | c :: _ => isBlank c || isBreak c

/-- Whether three characters that start or end a document stand here as a word. -/
def isMarker : List Char → Bool
  | '-' :: '-' :: '-' :: rest => endsWord rest
  | '.' :: '.' :: '.' :: rest => endsWord rest
  | _ => false

namespace Spot

def start (text : List Char) : Spot := ⟨⟨0, 0, 0⟩, text, false⟩

def advance (s : Spot) : Spot :=
  match s.rest with
  | [] => s
  | c :: rest =>
    if isBreak c then ⟨⟨s.index + 1, s.line + 1, 0⟩, rest, true⟩
    else ⟨⟨s.index + 1, s.line, s.column + 1⟩, rest, s.isFresh && isBlank c⟩

def skip : (count : Nat) → Spot → Spot
  | 0, s => s
  | count + 1, s => skip count s.advance

def atMarker (s : Spot) : Bool := s.column == 0 && isMarker s.rest

end Spot

/-- Characters that a document may hold. -/
def isAllowed (c : Char) : Bool :=
  let n := c.toNat
  n == 0x9 || n == 0xa || n == 0xd || (0x20 ≤ n && n ≤ 0x7e) || n == 0x85 ||
    (0xa0 ≤ n && n ≤ 0xfffd) || 0x10000 ≤ n

/-- The number of bytes that are taken from a text at once. -/
def chunkSize : Nat := 512

/-- Adds a character to the first of some chunks. -/
def addFirst (c : Char) : List (List Char) → List (List Char)
  | [] => [[c]]
  | chunk :: chunks => (c :: chunk) :: chunks

/-- Cuts a text into chunks, of which the first has room for `room` bytes. A character that does
not fit into a chunk starts the next one. -/
def chunks : (room : Nat) → List Char → List (List Char)
  | _, [] => [[]]
  | room, c :: rest =>
    if c.utf8Size ≤ room then addFirst c (chunks (room - c.utf8Size) rest)
    else [] :: addFirst c (chunks (chunkSize - c.utf8Size) rest)

/-- Carriage returns, with or without a line feed, made into line feeds. -/
def alikeLines : List Char → List Char
  | '\r' :: '\n' :: rest => '\n' :: alikeLines rest
  | c :: rest => (if c == '\r' then '\n' else c) :: alikeLines rest
  | [] => []

/-- A mark that tells the byte order of a text. -/
def byteOrderMark : Char := Char.ofNat 0xfeff

def withoutMark : List Char → List Char
  | c :: rest => if c == byteOrderMark then rest else c :: rest
  | [] => []

/-- A text as far as it can be read: a chunk with a character that is not allowed cannot, and
nothing after it. -/
structure Source where
  chars : List Char
  isWhole : Bool

def Source.ofText (text : String) : Source :=
  let all := chunks chunkSize text.toList
  let usable := all.takeWhile (·.all isAllowed)
  ⟨alikeLines (withoutMark usable.flatten), usable.length == all.length⟩

end TypedForms.Yaml
