/-! Lines in bytes. A line ends before a line feed, and a carriage return in front of that belongs
to the end. Lines are read through a buffer: one that does not fit comes in pieces. -/
namespace TypedForms.Text.Lines

/-- The number of bytes that the buffer holds. -/
def bufferSize : Nat := 4096

def lineFeed : UInt8 := 10

def carriageReturn : UInt8 := 13

/-- A line, or as much of one as the buffer holds. -/
structure Piece where
  bytes : List UInt8
  isCut : Bool
  deriving DecidableEq

/-- A line in reverse without the carriage return of its end. -/
def ended : List UInt8 → List UInt8
  | [] => []
  | b :: line => if b = carriageReturn then line else b :: line

/-- Reads on with a line, kept in reverse, and room for more of it in the buffer. A carriage return
that fills the buffer is left for the next piece, since a line feed may follow it. -/
def piecesFrom : (room : Nat) → (line : List UInt8) → List UInt8 → List Piece
  | _, [], [] => []
  | _, b :: line, [] => [⟨(b :: line).reverse, false⟩]
  | room, line, b :: rest =>
    if b = lineFeed then ⟨(ended line).reverse, false⟩ :: piecesFrom bufferSize [] rest
    else if 1 < room then piecesFrom (room - 1) (b :: line) rest
    else if b = carriageReturn then ⟨line.reverse, true⟩ :: piecesFrom (bufferSize - 1) [b] rest
    else ⟨(b :: line).reverse, true⟩ :: piecesFrom bufferSize [] rest

def pieces (bytes : List UInt8) : List Piece := piecesFrom bufferSize [] bytes

end TypedForms.Text.Lines
