import TypedForms.CacheDir
import TypedForms.Config.Decode
import TypedForms.FileTree
import TypedForms.Flags
import TypedForms.Log
import TypedForms.Release
import TypedForms.Session.Inputs
import TypedForms.Text.Utf8

/-! One run of the program, as a function of its arguments and of the world around it. -/
namespace TypedForms

/-- What a run finds: the files, the working directory, the environment variables, what is on
standard input, and the time. The working directory is a place; its path, as the system tells it,
may be another one than the place has, and the system may also fail to tell it. -/
structure World where
  tree : FileTree
  place : Place
  workingDir : Except String String
  vars : Variables
  input : List UInt8
  now : Timestamp
  release : Release

/-- What a run leaves behind. -/
structure Run where
  code : Nat
  stdout : String
  stderr : String
  tree : FileTree

namespace Command

/-- A line on standard error that tells of a failure. -/
def warning (message : String) : String := "⚠️ " ++ message ++ "\n"

def configVariable : String := "TYPELANG_CONFIG"

def configName : String := "typelang.yaml"

/-- The configuration to use: the one asked for, the one that a variable names, or the one in the
working directory if it is there. -/
def configPath? (w : World) (asked : String) : Option String :=
  let candidate := Path.join (w.workingDir.toOption.getD "") configName
  if asked != "" then some asked
  else if w.vars configVariable != "" then some (w.vars configVariable)
  else if w.tree.has w.place candidate then some candidate
  else none

/-- The options in a configuration file. A file that can be opened is read by its decoder. -/
def loadConfig (w : World) (path : String) : Except String Options :=
  match w.tree.read w.place path with
  | .error e =>
    if e.operation == "open" then .error ("config: " ++ e.message)
    else .error ("config: " ++ path ++ ": parse: yaml: input error: " ++ e.message)
  | .ok content =>
    match Config.decodeBytes content with
    | .ok options => .ok options
    | .error e => .error ("config: " ++ path ++ ": " ++ e.message)

/-- The files of the language end in this. -/
def sourceSuffix : String := ".tl"

/-- The files that an argument stands for: those of the language in a directory, or else the
argument itself, whether it can be read or not. It is a failure if a directory cannot be listed. -/
def expand (w : World) (argument : String) : Except String (List String) :=
  if w.tree.isDirectory w.place argument then
    match w.tree.list w.place argument with
    | .error e => .error ("reading " ++ argument ++ ": " ++ e.message)
    | .ok names =>
      .ok ((names.filter fun name => name.endsWith sourceSuffix).map (Path.join argument))
  else .ok [argument]

/-- What to expand: the arguments, or without any the working directory. -/
def operands (w : World) (arguments : List String) : Except String (List String) :=
  if arguments.isEmpty then
    match w.workingDir with
    | .error reason => .error ("getting current working directory: " ++ reason)
    | .ok path => .ok [path]
  else .ok arguments

/-- The files to check. The first argument that cannot be expanded makes all fail. -/
def collect (w : World) (arguments : List String) : Except String (List String) :=
  match operands w arguments with
  | .error message => .error message
  | .ok operands => (operands.mapM (expand w)).map List.flatten

def checkFile (w : World) (o : Options) (path : String) : Outcome :=
  match w.tree.read w.place path with
  | .ok content => Outcome.ofSource o path (Text.Utf8.text content)
  | .error e => ⟨path, .unreadable e.message⟩

/-- Opens the file that locks a log. It is made if it is missing. -/
def lockLog (w : World) (tree : FileTree) (log : String) : Except String FileTree :=
  match tree.openFile w.place (log ++ ".lock") .read with
  | .ok (tree, _) => .ok tree
  | .error e => .error ("acquire log lock: " ++ e.message)

/-- The most bytes that are written to a log at once. -/
def bufferSize : Nat := 4096

/-- Tells of a failure to write. It is noticed after the last line, or earlier if there is too much
to be written at once. -/
def writeTrouble (bytes : List UInt8) (e : FileError) : String :=
  if bytes.length > bufferSize then "write log: " ++ e.message else e.message

/-- Appends outcomes to a log. What was made before a failure stays. -/
def appendLog (w : World) (log : String) (outcomes : List Outcome) : FileTree × Option String :=
  match w.tree.makeDirectories w.place (Path.directory log) with
  | (tree, some e) => (tree, some ("create log dir: " ++ e.message))
  | (tree, none) =>
    match lockLog w tree log with
    | .error message => (tree, some message)
    | .ok tree =>
      match tree.openFile w.place log .write with
      | .error e => (tree, some ("open log: " ++ e.message))
      | .ok (tree, place) =>
        let bytes := Text.Utf8.bytes (Log.lines w.now outcomes)
        match tree.put place log bytes with
        | .error e => (tree, some (writeTrouble bytes e))
        | .ok tree => (tree, none)

def readLog (w : World) (log : String) : FileTree × Except String (List LogEntry) :=
  match lockLog w w.tree log with
  | .error message => (w.tree, .error message)
  | .ok tree =>
    match tree.read w.place log with
    | .error e => (tree, .error e.message)
    | .ok content =>
      match Log.read (Text.Utf8.text content) with
      | .ok entries => (tree, .ok entries)
      | .error malformed => (tree, .error malformed.message)

def runSummary (w : World) (notice log : String) : Run :=
  if log == "" then ⟨2, "", notice ++ warning "-summary needs -log", w.tree⟩
  else
    match readLog w log with
    | (tree, .ok entries) => ⟨0, Log.summary entries, notice, tree⟩
    | (tree, .error message) =>
      ⟨1, "", notice ++
        warning ("Failed reading result log " ++ Text.quote log ++ ": " ++ message), tree⟩

/-- Writes a history, as far as that is possible. -/
def saveHistory (w : World) (history : List (List UInt8)) : FileTree :=
  let path := historyFile w.vars
  match w.tree.makeDirectories w.place (Path.directory path) with
  | (tree, some _) => tree
  | (tree, none) =>
    match tree.write w.place path (Session.historyBytes history) with
    | .ok tree => tree
    | .error _ => tree

def runSession (w : World) (notice : String) (o : Options) : Run :=
  let history := match w.tree.read w.place (historyFile w.vars) with
    | .ok content => Session.storedHistory content
    | .error _ => []
  let inputs := Session.inputs [] (Session.lines w.input)
  let (output, history) := (Session.start o).run history inputs
  ⟨0, w.release.greeting ++ output, notice, saveHistory w history⟩

/-- Checks collected files. Well-typed ones are reported on standard output, all others on standard
error. -/
def runFiles (w : World) (notice : String) (o : Options) (log : String)
    (files : List String) : Run :=
  let outcomes := files.map (checkFile w o)
  let failed := outcomes.filter (!·.isOk)
  let stdout := String.join ((outcomes.filter Outcome.isOk).map Outcome.report)
  let reports := String.join (failed.map Outcome.report)
  let (tree, trouble) :=
    if log == "" then (w.tree, none) else appendLog w log outcomes
  let logNotice := match trouble with
    | none => ""
    | some message =>
      warning ("Failed writing result log " ++ Text.quote log ++ ": " ++ message)
  let stderr := notice ++ reports ++ logNotice
  if failed.isEmpty then
    ⟨0, stdout, stderr ++ "✅ " ++ toString outcomes.length ++ " file(s) well typed\n", tree⟩
  else
    ⟨1, stdout, stderr ++ warning (toString failed.length ++ " of " ++
      toString outcomes.length ++ " file(s) failed to type check"), tree⟩

/-- Collects files and checks them, if there are any. -/
def runCheck (w : World) (notice : String) (o : Options) (log : String)
    (arguments : List String) : Run :=
  match collect w arguments with
  | .error message => ⟨1, "", notice ++ warning message, w.tree⟩
  | .ok files =>
    if files.isEmpty then
      ⟨1, "", notice ++ warning ("No " ++ sourceSuffix ++ " files to check"), w.tree⟩
    else runFiles w notice o log files

/-- What a run does once the options are known. `notice` is already on standard error. -/
def runWith (w : World) (f : Flags) (notice : String) (o : Options) : Run :=
  if f.printConfig then ⟨0, (Config.ofOptions o).write, notice, w.tree⟩
  else if f.summary then runSummary w notice f.log
  else if f.repl then runSession w notice o
  else runCheck w notice o f.log f.files

/-- The files and directories that matter to a run. -/
def paths (workingDir : Except String String) (vars : Variables) (arguments : List String) :
    List String :=
  match Flags.parse arguments with
  | .error _ => []
  | .ok f =>
    let here := workingDir.toOption.getD ""
    let log := if f.log == "" then [] else [f.log, f.log ++ ".lock"]
    let operands := if f.files.isEmpty then [here] else f.files
    Path.join here configName :: f.config :: vars configVariable ::
      historyFile vars :: operands ++ log

/-- A run of the program. A configuration that is used is announced on standard error. -/
def run (w : World) (arguments : List String) : Run :=
  match Flags.parse arguments with
  | .error e => ⟨2, "", Flags.complaint e, w.tree⟩
  | .ok f =>
    if f.version then ⟨0, w.release.versionLine, "", w.tree⟩
    else
      match configPath? w f.config with
      | none => runWith w f "" .standard
      | some path =>
        match loadConfig w path with
        | .error message => ⟨1, "", warning message, w.tree⟩
        | .ok options => runWith w f ("Using config: " ++ path ++ "\n") options

end Command

end TypedForms
