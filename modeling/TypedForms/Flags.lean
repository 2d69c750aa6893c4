import TypedForms.Text.Quoted

/-! The flags of the command line. Flags come before the files; a name that is not a flag, or two
dashes, ends them. -/
namespace TypedForms

structure Flags where
  repl : Bool
  config : String
  printConfig : Bool
  log : String
  summary : Bool
  version : Bool
  files : List String

/-- Why flags cannot be used. Asking for help is not an error of the user, but ends the same. -/
inductive FlagError where
  | help
  | badForm (argument : String)
  | undefined (name : String)
  | needsArgument (name : String)
  | invalidBool (value name : String)

namespace FlagError

/-- The line that says what is wrong; asking for help needs none. -/
def message? : FlagError → Option String
  | .help => none
  | .badForm argument => some ("bad flag syntax: " ++ argument)
  | .undefined name => some ("flag provided but not defined: -" ++ name)
  | .needsArgument name => some ("flag needs an argument: -" ++ name)
  | .invalidBool value name =>
    some ("invalid boolean value " ++ Text.quote value ++ " for -" ++ name ++ ": parse error")

end FlagError

namespace Flags

/-- No flag is given. -/
def unset : Flags := ⟨false, "", false, "", false, false, []⟩

def usage : String :=
  "usage: typelang [flags] [files or directories...]\n" ++
  "  -config string\n" ++
  "    \tchecker options file (default $TYPELANG_CONFIG or ./typelang.yaml)\n" ++
  "  -log string\n" ++
  "    \tappend one line per checked file to this log\n" ++
  "  -print-config\n" ++
  "    \tprint the checker options in effect as YAML and exit\n" ++
  "  -repl\n" ++
  "    \tstart an interactive type checking session\n" ++
  "  -summary\n" ++
  "    \tprint the latest result per file recorded in the -log file and exit\n" ++
  "  -version\n" ++
  "    \tprint version information and exit\n"

/-- What is printed when flags cannot be used. -/
def complaint (e : FlagError) : String :=
  match e.message? with
  | some message => message ++ "\n" ++ usage
  | none => usage

/-- A flag that is set, or that takes the text after it. -/
inductive Setting where
  | switch (set : Bool → Flags)
  | text (set : String → Flags)

def setting? (f : Flags) (name : String) : Option Setting :=
  match name with
  | "repl" => some (.switch fun value => { f with repl := value })
  | "config" => some (.text fun value => { f with config := value })
  | "print-config" => some (.switch fun value => { f with printConfig := value })
  | "log" => some (.text fun value => { f with log := value })
  | "summary" => some (.switch fun value => { f with summary := value })
  | "version" => some (.switch fun value => { f with version := value })
  | _ => none

def boolOf? (value : String) : Option Bool :=
  if ["1", "t", "T", "true", "TRUE", "True"].contains value then some true
  else if ["0", "f", "F", "false", "FALSE", "False"].contains value then some false
  else none

/-- An argument taken apart. -/
inductive Argument where
  | operand
  | terminator
  | malformed
  | flag (name : String) (value : Option String)

/-- The name of a flag and the value after the first equals sign, which cannot come first. -/
def nameAndValue (text : List Char) : Argument :=
  match text with
  | [] | '-' :: _ | '=' :: _ => .malformed
  | c :: rest =>
    let name := rest.takeWhile (· != '=')
    match rest.dropWhile (· != '=') with
    | _ :: value => .flag (String.ofList (c :: name)) (some (String.ofList value))
    | [] => .flag (String.ofList (c :: name)) none

def Argument.ofText (argument : String) : Argument :=
  match argument.toList with
  | ['-', '-'] => .terminator
  | '-' :: '-' :: rest => nameAndValue rest
  | ['-'] => .operand
  | '-' :: rest => nameAndValue rest
  | _ => .operand

def parseFrom (f : Flags) : List String → Except FlagError Flags
  | [] => .ok f
  | argument :: rest =>
    match Argument.ofText argument with
    | .operand => .ok { f with files := argument :: rest }
    | .terminator => .ok { f with files := rest }
    | .malformed => .error (.badForm argument)
    | .flag name value =>
      match f.setting? name with
      | none => .error (if name == "help" || name == "h" then .help else .undefined name)
      | some (.switch set) =>
        match value with
        | none => parseFrom (set true) rest
        | some value =>
          match boolOf? value with
          | some value => parseFrom (set value) rest
          | none => .error (.invalidBool value name)
      | some (.text set) =>
        match value with
        | some value => parseFrom (set value) rest
        | none =>
          match rest with
          | value :: rest => parseFrom (set value) rest
          | [] => .error (.needsArgument name)

def parse (arguments : List String) : Except FlagError Flags := parseFrom unset arguments

end Flags

end TypedForms
