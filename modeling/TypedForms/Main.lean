import Std.Time.DateTime.Timestamp
import TypedForms.Command

/-! The command line. What matters to a run in the file system is looked at first, then the run is
computed, and what it changed in the files is written. What cannot be looked at is taken up with
the cause of that. -/
namespace TypedForms.Main

/-- The cause that a failure of the system tells of. -/
def causeOf (e : IO.Error) : FileCause :=
  match e with
  | .noFileOrDirectory .. => .missing
  | .permissionDenied .. => .denied
  | .invalidArgument _ _ "too many symbolic links encountered" => .tooManyLinks
  | .hardwareFault _ details | .otherError _ details | .invalidArgument _ _ details =>
    .other details.decapitalize
  | e => .other (toString e)

/-- What comes of an action, or the cause of its failure. -/
def tried {α : Type} (action : IO α) : IO (Except FileCause α) := do
  try return .ok (← action) catch e => return .error (causeOf e)

def failure? {α : Type} : Except FileCause α → Option FileCause
  | .ok _ => none
  | .error cause => some cause

def pathOf (place : Place) := do return (← IO.FS.realPath "/") / place.path

/-- A directory, with what keeps it from being listed and names from being looked up in it. -/
def loadDirectory (place : Place) : IO FileNode := do
  let path ← pathOf place
  let opened ← tried (IO.FS.Handle.mk path .read)
  let searched ← tried (path / ".").metadata
  return .directory { Faults.free with opening := failure? opened, searching := failure? searched }

/-- A file, with what keeps it from being read. -/
def loadFile (place : Place) : IO FileNode := do
  let path ← pathOf place
  match ← tried (IO.FS.Handle.mk path .read) with
  | .error cause => return .file { Faults.free with opening := some cause } []
  | .ok handle =>
    match ← tried handle.readBinToEnd with
    | .error cause => return .file { Faults.free with reading := some cause } []
    | .ok bytes => return .file .free bytes.data.toList

/-- Takes up what is at a place without following a link there. -/
def loadNode (tree : FileTree) (place : Place) : IO FileTree := do
  let path ← pathOf place
  match ← tried path.metadata with
  | .error _ => return tree
  | .ok metadata =>
    let node ← if metadata.type == .dir then loadDirectory place else loadFile place
    return tree.insert place node

/-- The target of a link that leads nowhere. -/
def nowhere (place : Place) : String := place.path ++ ".missing/target"

/-- Takes up what is at a place, and what a link there leads to. -/
def loadPlace (tree : FileTree) (place : Place) : IO FileTree := do
  let path ← pathOf place
  match ← tried path.symlinkMetadata with
  | .error _ => return tree
  | .ok metadata =>
    if metadata.type != .symlink then loadNode tree place
    else
      match ← tried path.metadata with
      | .ok _ =>
        let target := (← IO.FS.realPath path).toString
        let places := (FileTree.leadingPaths target).map Place.ofPath
        places.foldlM loadNode (tree.insertLink place target)
      | .error .missing => return tree.insertLink place (nowhere place)
      | .error cause =>
        return tree.insert place (.file { Faults.free with opening := some cause } [])

/-- Takes up what a path leads along. -/
def loadAlong (workingDir : Place) (tree : FileTree) (path : String) : IO FileTree :=
  (FileTree.leadingPaths path).foldlM (fun tree leading =>
    match tree.locate workingDir leading with
    | .error _ => return tree
    | .ok place => loadPlace tree place) tree

/-- Takes up a path: what it leads along, and the files of the language in it. -/
def loadPath (workingDir : Place) (tree : FileTree) (path : String) : IO FileTree := do
  let tree ← loadAlong workingDir tree path
  match tree.stat workingDir path with
  | .ok (place, .directory _) =>
    match ← tried (← pathOf place).readDir with
    | .error _ => return tree
    | .ok entries =>
      let names := (entries.toList.map (·.fileName)).filter fun name =>
        name.endsWith Command.sourceSuffix
      (names.map fun name => place ++ [name]).foldlM loadPlace tree
  | _ => return tree

/-- Writes what a run has made of a place. Content that was added goes to the end of its file. -/
def save (old : FileTree) (entry : Place × FileNode) : IO Unit := do
  let (place, node) := entry
  let path ← pathOf place
  if old.node? place == some node then return
  match node with
  | .directory _ => IO.FS.createDirAll path
  | .file _ content =>
    let before := old.content place
    if (old.node? place).isSome && before.isPrefixOf content then
      let added := (content.drop before.length).toByteArray
      IO.FS.withFile path .append fun handle => handle.write added
    else IO.FS.writeBinFile path content.toByteArray

/-- Writes all that a run has changed. The first failure ends this, and is told. -/
def saveAll (old new : FileTree) : IO Unit := do
  match ← tried (new.nodes.forM (save old)) with
  | .ok _ => return
  | .error cause => (← IO.getStderr).putStr (Command.warning ("Failed writing: " ++ cause.text))

partial def readAll (stream : IO.FS.Stream) (before : ByteArray) : IO ByteArray := do
  let bytes ← stream.read 65536
  if bytes.isEmpty then return before
  readAll stream (before ++ bytes)

def variableNames : List String := [Command.configVariable, "TLCACHE", "XDG_CACHE_HOME", "HOME"]

def loadVariables : IO Variables := do
  let values ← variableNames.mapM fun name => do
    return (name, (← IO.getEnv name).getD "")
  return fun name => (values.lookup name).getD ""

/-- Only a session reads its input. -/
def loadInput (arguments : List String) : IO (List UInt8) := do
  match Flags.parse arguments with
  | .ok f => if f.repl then return (← readAll (← IO.getStdin) .empty).data.toList else return []
  | .error _ => return []

/-- The path of the working directory. A variable may tell another path to it, which is kept. -/
def loadWorkingDir : IO (Except FileCause (Place × String)) := do
  match ← tried IO.currentDir with
  | .error _ => return .error .missing
  | .ok path =>
    let told := (← IO.getEnv "PWD").getD ""
    let same ← if Path.isAbsolute told then
        match ← tried (IO.FS.realPath told) with
        | .ok real => pure (real.toString == path.toString)
        | .error _ => pure false
      else pure false
    return .ok (.ofPath path.toString, if same then told else path.toString)

/-- A place where nothing can be. -/
def lost : Place := [""]

def runIn (arguments : List String) : IO UInt32 := do
  let vars ← loadVariables
  let found ← loadWorkingDir
  let place := (found.map (·.1)).toOption.getD lost
  let workingDir := (found.map (·.2)).mapError fun cause => "getwd: " ++ cause.text
  let tree ← (Command.paths workingDir vars arguments).foldlM (loadPath place)
    (← loadAlong [] .empty place.path)
  let now ← Std.Time.Timestamp.now
  let w : World := ⟨tree, place, workingDir, vars, ← loadInput arguments,
    ⟨now.toSecondsSinceUnixEpoch.val⟩, .unreleased⟩
  let r := Command.run w arguments
  (← IO.getStdout).putStr r.stdout
  (← IO.getStderr).putStr r.stderr
  saveAll tree r.tree
  return UInt32.ofNat r.code

end TypedForms.Main

def main (arguments : List String) : IO UInt32 := TypedForms.Main.runIn arguments
