import TypedForms.Outcome
import TypedForms.Text.Split
import TypedForms.Timestamp

/-! The result log: one line for each checked file, with four fields divided by tabs. -/
namespace TypedForms

structure LogEntry where
  time : String
  status : String
  file : String
  detail : String
  deriving DecidableEq

namespace LogEntry

def ofOutcome (now : Timestamp) (r : Outcome) : LogEntry :=
  ⟨now.render, r.status, r.file, r.detail⟩

/-- The line of an entry. A detail of several lines is put on one. -/
def line (e : LogEntry) : String :=
  Text.joined "\t" [e.time, e.status, e.file, Text.replaceChar '\n' ' ' e.detail]

/-- Reads a line; the last field may contain tabs. -/
def ofLine? (line : List Char) : Option LogEntry := do
  let (time, rest) ← Text.cut? '\t' line
  let (status, rest) ← Text.cut? '\t' rest
  let (file, detail) ← Text.cut? '\t' rest
  some ⟨String.ofList time, String.ofList status, String.ofList file, String.ofList detail⟩

end LogEntry

namespace Log

/-- The text that is appended to a log for outcomes. -/
def lines (now : Timestamp) (outcomes : List Outcome) : String :=
  String.join (outcomes.map fun r => (LogEntry.ofOutcome now r).line ++ "\n")

/-- A line that has fewer than four fields. -/
structure MalformedLine where
  line : String

def MalformedLine.message (m : MalformedLine) : String :=
  "malformed log line " ++ Text.quote m.line

def readLines : List (List Char) → Except MalformedLine (List LogEntry)
  | [] => .ok []
  | line :: lines =>
    if line.isEmpty then readLines lines
    else match LogEntry.ofLine? line with
      | none => .error ⟨String.ofList line⟩
      | some entry => (readLines lines).map (entry :: ·)

/-- The entries of a log; empty lines are left out. -/
def read (text : String) : Except MalformedLine (List LogEntry) :=
  readLines (Text.split '\n' text.toList)

/-- The latest entry for a file, and how many there are. -/
structure Row where
  latest : LogEntry
  runs : Nat

def Row.render (r : Row) : String :=
  r.latest.status ++ "\t" ++ r.latest.file ++ "\t" ++ r.latest.detail ++ " (" ++
    toString r.runs ++ " run(s))\n"

/-- Takes an entry into account: it becomes the latest of its file, which gets a row below the
others if it has none yet. -/
def tally : List Row → LogEntry → List Row
  | [], e => [⟨e, 1⟩]
  | row :: rows, e =>
    if row.latest.file = e.file then ⟨e, row.runs + 1⟩ :: rows else row :: tally rows e

/-- One row for each file, in the order in which the files first appear. -/
def rows (entries : List LogEntry) : List Row := entries.foldl tally []

def summary (entries : List LogEntry) : String :=
  let rows := rows entries
  let failing := (rows.filter (·.latest.status != "ok")).length
  String.join (rows.map Row.render) ++ toString rows.length ++ " file(s), " ++
    toString failing ++ " failing, " ++ toString entries.length ++ " run(s) logged\n"

end Log

end TypedForms
