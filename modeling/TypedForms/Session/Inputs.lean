import TypedForms.Session
import TypedForms.Text.Lines
import TypedForms.Text.Utf8

/-! From lines to inputs, and a whole session on them. Lines belong to one input as long as it
is incomplete. Inputs that are not blank are remembered in a history. Lines and inputs are kept
as bytes, since a line may be cut inside of a character. -/
namespace TypedForms.Session

/-- The lines that a session reads; pieces of a long line count as lines. -/
def lines (bytes : List UInt8) : List (List UInt8) := (Text.Lines.pieces bytes).map (·.bytes)

/-- Groups lines into inputs. `pending` holds the lines of an input that is not complete yet;
at the end of the lines it is dropped. -/
def inputs (pending : List UInt8) : List (List UInt8) → List (List UInt8)
  | [] => []
  | line :: lines =>
    let input := if pending.isEmpty then line else pending ++ Text.Lines.lineFeed :: line
    if isIncomplete (Text.Utf8.text input) then inputs input lines
    else input :: inputs [] lines

/-- The number of inputs that a history keeps. -/
def historyLimit : Nat := 1000

/-- The latest inputs, as many as a history keeps. -/
def latest (history : List (List UInt8)) : List (List UInt8) :=
  history.drop (history.length - historyLimit)

/-- An input on one line, as a history shows it. -/
def onOneLine (input : List UInt8) : List UInt8 :=
  input.map fun b => if b = Text.Lines.lineFeed then 32 else b

/-- Adds an input to a history, unless it repeats the one before; the oldest gives way. -/
def remember (history : List (List UInt8)) (input : List UInt8) : List (List UInt8) :=
  if history.getLast? = some input then history else latest (history ++ [input])

/-- How the history of a session starts: with the lines of an earlier one, up to the first that
is too long or is no text. -/
def storedHistory (bytes : List UInt8) : List (List UInt8) :=
  let usable := (Text.Lines.pieces bytes).takeWhile fun piece =>
    !piece.isCut && Text.Utf8.isText piece.bytes
  latest (usable.map (·.bytes))

/-- A history as a file keeps it. -/
def historyBytes (history : List (List UInt8)) : List UInt8 :=
  history.flatMap (· ++ [Text.Lines.lineFeed])

/-- Runs inputs until one of them asks to leave. The result is the text printed and the history
afterwards; when the inputs run out, an empty line is printed. -/
def run (s : Session) (history : List (List UInt8)) :
    List (List UInt8) → String × List (List UInt8)
  | [] => ("\n", history)
  | input :: inputs =>
    let text := Text.Utf8.text input
    if (Text.trim text.toList).isEmpty then run s history inputs
    else
      let history := remember history (onOneLine input)
      let reply := s.step text
      if reply.goesOn then
        let (output, history) := run reply.session history inputs
        (reply.output ++ output, history)
      else (reply.output, history)

end TypedForms.Session
