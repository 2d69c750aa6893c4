import TypedForms.Path

/-! A file system as a value: directories, files and links, by their places below the root. Paths
are texts that are followed from a working directory, component by component. -/
namespace TypedForms

/-- Components from the root on. -/
abbrev Place := List String

namespace Place

/-- The place of an absolute path, by its text alone. -/
def ofPath (path : String) : Place := (Path.components (Path.clean path)).filter (· != "")

def path (place : Place) : String := "/" ++ Text.joined "/" place

/-- Where a path starts that is used at a place. -/
def start (place : Place) (path : String) : Place := if Path.isAbsolute path then [] else place

end Place

/-- Why a path cannot be used. -/
inductive FileCause where
  | missing
  | notDirectory
  | isDirectory
  | taken
  | tooLong
  | invalid
  | denied
  | tooManyLinks
  | other (text : String)
  deriving DecidableEq

namespace FileCause

def text : FileCause → String
  | .missing => "no such file or directory"
  | .notDirectory => "not a directory"
  | .isDirectory => "is a directory"
  | .taken => "file exists"
  | .tooLong => "file name too long"
  | .invalid => "invalid argument"
  | .denied => "permission denied"
  | .tooManyLinks => "too many levels of symbolic links"
  | .other text => text

/-- What is wrong with a path by its text alone. -/
def ofPath? (path : String) : Option FileCause :=
  if path.toList.contains '\x00' then some .invalid
  else if path == "" then some .missing
  else if path.utf8ByteSize > Path.limit then some .tooLong
  else none

end FileCause

/-- An operation that failed on a path. -/
structure FileError where
  operation : String
  path : String
  cause : FileCause

def FileError.message (e : FileError) : String :=
  e.operation ++ " " ++ e.path ++ ": " ++ e.cause.text

/-- What a file is opened for. -/
inductive Use where
  | read
  | write
  | both

/-- What stands in the way of using a file or a directory. For each use there is the cause with
which it fails, if it does: opening it to be read or listed, reading or listing it then, opening
it to be written or adding a name to it, writing to it then, and looking a name up in it. -/
structure Faults where
  opening : Option FileCause
  reading : Option FileCause
  changing : Option FileCause
  writing : Option FileCause
  searching : Option FileCause
  deriving DecidableEq

namespace Faults

/-- Nothing stands in the way. -/
def free : Faults := ⟨none, none, none, none, none⟩

/-- Whoever asks is not allowed to read. -/
def unreadable : Faults := { free with opening := some .denied }

/-- The cause with which a file cannot be opened. -/
def against (faults : Faults) : Use → Option FileCause
  | .read => faults.opening
  | .write => faults.changing
  | .both => faults.opening <|> faults.changing

end Faults

inductive FileNode where
  | directory (faults : Faults)
  | file (faults : Faults) (content : List UInt8)
  deriving DecidableEq

namespace FileNode

def faults : FileNode → Faults
  | .directory faults => faults
  | .file faults _ => faults

def isDirectory : FileNode → Bool
  | .directory _ => true
  | .file _ _ => false

end FileNode

/-- The root is always a directory; everything else is listed. A place is listed once, has a proper
name, and is inside of a directory. The target of a link is a path. -/
structure FileTree where
  root : Faults
  nodes : List (Place × FileNode)
  links : List (Place × String)
  single : (nodes.map (·.1) ++ links.map (·.1)).Nodup
  inside : ∀ place ∈ nodes.map (·.1) ++ links.map (·.1),
    place.getLast?.any Path.isName = true ∧
      (place.dropLast.isEmpty || (nodes.lookup place.dropLast).any FileNode.isDirectory) = true
  targets : ∀ link ∈ links, FileCause.ofPath? link.2 = none

namespace FileTree

def empty : FileTree := ⟨.free, [], [], .nil, by simp, by simp⟩

/-- The file or directory at a place. -/
def node? (tree : FileTree) (place : Place) : Option FileNode :=
  if place.isEmpty then some (.directory tree.root) else tree.nodes.lookup place

/-- The target of the link at a place. -/
def link? (tree : FileTree) (place : Place) : Option String := tree.links.lookup place

def hasDirectory (tree : FileTree) (place : Place) : Bool :=
  (tree.node? place).any FileNode.isDirectory

theorem hasDirectory_eq {tree : FileTree} {place : Place} : tree.hasDirectory place =
    (place.isEmpty || (tree.nodes.lookup place).any FileNode.isDirectory) := by
  cases place <;> rfl

/-- What stands in the way at a place; where nothing is, nothing stands in the way. -/
def faults (tree : FileTree) (place : Place) : Faults :=
  ((tree.node? place).map FileNode.faults).getD .free

/-- What the file at a place contains; a file that is not there contains nothing. -/
def content (tree : FileTree) (place : Place) : List UInt8 :=
  match tree.node? place with
  | some (.file _ content) => content
  | _ => []

/-! Changing what is at a place. -/

/-- A file or a directory can be put at a place: it has a proper name and is inside of a directory,
and there is neither a directory nor a link. -/
structure Fits (tree : FileTree) (place : Place) : Prop where
  named : place.getLast?.any Path.isName = true
  inside : tree.hasDirectory place.dropLast = true
  free : tree.hasDirectory place = false
  unlinked : tree.link? place = none

theorem fits_iff {tree : FileTree} {place : Place} :
    (place.getLast?.any Path.isName = true ∧ tree.hasDirectory place.dropLast = true ∧
      tree.hasDirectory place = false ∧ tree.link? place = none) ↔ tree.Fits place := by
  constructor
  · rintro ⟨named, inside, free, unlinked⟩
    exact ⟨named, inside, free, unlinked⟩
  · rintro ⟨named, inside, free, unlinked⟩
    exact ⟨named, inside, free, unlinked⟩

instance (tree : FileTree) (place : Place) : Decidable (tree.Fits place) :=
  decidable_of_decidable_of_iff fits_iff

theorem lookup_filter_of_ne {α : Type} {entries : List (Place × α)} {place other : Place}
    (different : other ≠ place) :
    (entries.filter (·.1 != place)).lookup other = entries.lookup other := by
  induction entries with
  | nil => rfl
  | cons entry entries ih =>
    obtain ⟨at', value⟩ := entry
    by_cases same : at' = place
    · subst same
      have skipped : (other == at') = false := beq_eq_false_iff_ne.mpr different
      simp [List.lookup_cons, skipped, ih]
    · simp [List.lookup_cons, same, ih]

theorem not_mem_of_lookup_eq_none {α : Type} {entries : List (Place × α)} {place : Place}
    (absent : entries.lookup place = none) : place ∉ entries.map (·.1) := by
  simp only [List.lookup_eq_none_iff, List.mem_map, not_exists, not_and] at absent ⊢
  rintro entry member rfl
  simpa using absent entry member

/-- The nodes with another one at a place. -/
def replaced (tree : FileTree) (place : Place) (node : FileNode) : List (Place × FileNode) :=
  tree.nodes.filter (·.1 != place) ++ [(place, node)]

theorem lookup_replaced_of_ne {tree : FileTree} {place other : Place} {node : FileNode}
    (different : other ≠ place) :
    (tree.replaced place node).lookup other = tree.nodes.lookup other := by
  have skipped : (other == place) = false := beq_eq_false_iff_ne.mpr different
  simp [replaced, List.lookup_append, lookup_filter_of_ne different, List.lookup_cons, skipped]

theorem mem_places_replaced {tree : FileTree} {place other : Place} {node : FileNode}
    (member : other ∈ (tree.replaced place node).map (·.1) ++ tree.links.map (·.1)) :
    other = place ∨ other ∈ tree.nodes.map (·.1) ++ tree.links.map (·.1) := by
  simp only [replaced, List.map_append, List.mem_append, List.mem_map, List.mem_filter] at member ⊢
  grind

theorem single_replaced {tree : FileTree} {place : Place} {node : FileNode}
    (unlinked : tree.link? place = none) :
    ((tree.replaced place node).map (·.1) ++ tree.links.map (·.1)).Nodup := by
  have gone : place ∉ (tree.nodes.filter (·.1 != place)).map (·.1) := by simp
  have kept : ((tree.nodes.filter (·.1 != place)).map (·.1) ++ tree.links.map (·.1)).Nodup :=
    tree.single.sublist ((List.filter_sublist.map _).append (List.Sublist.refl _))
  have fresh : place ∉ (tree.nodes.filter (·.1 != place)).map (·.1) ++ tree.links.map (·.1) := by
    rw [List.mem_append, not_or]
    exact ⟨gone, not_mem_of_lookup_eq_none unlinked⟩
  have moved : ((tree.replaced place node).map (·.1) ++ tree.links.map (·.1)).Perm
      (place :: ((tree.nodes.filter (·.1 != place)).map (·.1) ++ tree.links.map (·.1))) := by
    simp [replaced, List.perm_middle]
  exact moved.nodup_iff.mpr (List.nodup_cons.mpr ⟨fresh, kept⟩)

theorem inside_replaced {tree : FileTree} {place : Place} {node : FileNode}
    (fits : tree.Fits place) :
    ∀ other ∈ (tree.replaced place node).map (·.1) ++ tree.links.map (·.1),
      other.getLast?.any Path.isName = true ∧
        (other.dropLast.isEmpty ||
          ((tree.replaced place node).lookup other.dropLast).any FileNode.isDirectory) = true := by
  intro other member
  have before : other.getLast?.any Path.isName = true ∧
      tree.hasDirectory other.dropLast = true := by
    rcases mem_places_replaced member with rfl | listed
    · exact ⟨fits.named, fits.inside⟩
    · rw [hasDirectory_eq]
      exact tree.inside other listed
  refine ⟨before.1, ?_⟩
  have different : other.dropLast ≠ place := by
    intro same
    rw [same, fits.free] at before
    exact Bool.false_ne_true before.2
  rw [lookup_replaced_of_ne different, ← hasDirectory_eq]
  exact before.2

/-- Puts a file or a directory at a place, if it fits there. -/
def insert (tree : FileTree) (place : Place) (node : FileNode) : FileTree :=
  if fits : tree.Fits place then
    { tree with
      nodes := tree.replaced place node
      single := single_replaced fits.unlinked
      inside := inside_replaced fits }
  else tree

theorem single_linked {tree : FileTree} {place : Place} {target : String}
    (fits : tree.Fits place) (absent : tree.node? place = none) :
    (tree.nodes.map (·.1) ++ ((place, target) :: tree.links).map (·.1)).Nodup := by
  have unlisted : tree.nodes.lookup place = none := by
    unfold node? at absent
    split at absent
    · cases absent
    · exact absent
  have fresh : place ∉ tree.nodes.map (·.1) ++ tree.links.map (·.1) := by
    rw [List.mem_append, not_or]
    exact ⟨not_mem_of_lookup_eq_none unlisted,
      not_mem_of_lookup_eq_none fits.unlinked⟩
  rw [List.map_cons]
  exact List.perm_middle.nodup_iff.mpr (List.nodup_cons.mpr ⟨fresh, tree.single⟩)

theorem inside_linked {tree : FileTree} {place : Place} {target : String}
    (fits : tree.Fits place) :
    ∀ other ∈ tree.nodes.map (·.1) ++ ((place, target) :: tree.links).map (·.1),
      other.getLast?.any Path.isName = true ∧
        (other.dropLast.isEmpty ||
          (tree.nodes.lookup other.dropLast).any FileNode.isDirectory) = true := by
  intro other member
  rw [List.map_cons, List.perm_middle.mem_iff, List.mem_cons] at member
  rcases member with rfl | listed
  · rw [← hasDirectory_eq]
    exact ⟨fits.named, fits.inside⟩
  · exact tree.inside other listed

/-- Puts a link at a place where nothing is yet. -/
def insertLink (tree : FileTree) (place : Place) (target : String) : FileTree :=
  if fits : tree.Fits place ∧ tree.node? place = none ∧
      FileCause.ofPath? target = none then
    { tree with
      links := (place, target) :: tree.links
      single := single_linked fits.1 fits.2.1
      inside := inside_linked fits.1
      targets := List.forall_mem_cons.mpr ⟨fits.2.2, tree.targets⟩ }
  else tree

/-! Following paths. -/

/-- Follows a component from a place, which must be a directory. -/
def follow (tree : FileTree) (place : Place) (component : String) : Except FileCause Place :=
  match tree.node? place with
  | none => .error .missing
  | some (.file _ _) => .error .notDirectory
  | some (.directory faults) =>
    if component == "" then .ok place
    else match faults.searching with
      | some cause => .error cause
      | none =>
        if component == "." then .ok place
        else if component == ".." then .ok place.dropLast
        else if component.utf8ByteSize > Path.nameLimit then .error .tooLong
        else .ok (place ++ [component])

/-- Follows components one after the other. A link hands over to `jump`, which is told where the
link is, its target, and what is left to follow. -/
def followAll (tree : FileTree) (jump : Place → String → List String → Except FileCause Place) :
    Place → List String → Except FileCause Place
  | place, [] => .ok place
  | place, component :: rest =>
    match tree.follow place component with
    | .error cause => .error cause
    | .ok next =>
      match tree.link? next with
      | some target => jump place target rest
      | none => followAll tree jump next rest

/-- Follows components and at most so many links. -/
def walk (tree : FileTree) : Nat → Place → List String → Except FileCause Place
  | 0 => tree.followAll fun _ _ _ => .error .tooManyLinks
  | links + 1 => tree.followAll fun place target rest =>
    tree.walk links (place.start target) (Path.components target ++ rest)

/-- The most links that are followed on one path. -/
def linkLimit : Nat := 40

/-- The place that a path leads to. All but the last component must be directories; the place
itself need not be taken. -/
def resolve (tree : FileTree) (workingDir : Place) (path : String) : Except FileCause Place :=
  match FileCause.ofPath? path with
  | some cause => .error cause
  | none => tree.walk linkLimit (workingDir.start path) (Path.components path)

/-- The place that a path names. A link there is not followed, and slashes at the end do not
matter. -/
def locate (tree : FileTree) (workingDir : Place) (path : String) : Except FileCause Place :=
  match FileCause.ofPath? path with
  | some cause => .error cause
  | none =>
    let components := (Path.components path).filter (· != "")
    match tree.walk linkLimit (workingDir.start path) components.dropLast with
    | .error cause => .error cause
    | .ok place => tree.follow place (components.getLast?.getD "")

/-- What a path leads to, and where that is. -/
def stat (tree : FileTree) (workingDir : Place) (path : String) :
    Except FileCause (Place × FileNode) :=
  match tree.resolve workingDir path with
  | .error cause => .error cause
  | .ok place =>
    match tree.node? place with
    | some node => .ok (place, node)
    | none => .error .missing

def has (tree : FileTree) (workingDir : Place) (path : String) : Bool :=
  match tree.stat workingDir path with
  | .ok _ => true
  | .error _ => false

def isDirectory (tree : FileTree) (workingDir : Place) (path : String) : Bool :=
  match tree.stat workingDir path with
  | .ok (_, node) => node.isDirectory
  | .error _ => false

/-! Reading. -/

/-- Opens what a path leads to, to read or list it. -/
def openNode (tree : FileTree) (workingDir : Place) (path : String) :
    Except FileError (Place × FileNode) :=
  match tree.stat workingDir path with
  | .error cause => .error ⟨"open", path, cause⟩
  | .ok (place, node) =>
    match node.faults.opening with
    | some cause => .error ⟨"open", path, cause⟩
    | none => .ok (place, node)

/-- The content of a file. A directory can be opened, but not read. -/
def read (tree : FileTree) (workingDir : Place) (path : String) :
    Except FileError (List UInt8) :=
  match tree.openNode workingDir path with
  | .error e => .error e
  | .ok (_, .directory _) => .error ⟨"read", path, .isDirectory⟩
  | .ok (_, .file faults content) =>
    match faults.reading with
    | some cause => .error ⟨"read", path, cause⟩
    | none => .ok content

/-- The names in a directory that are no directories, in the order of their characters. A link
counts as none, wherever it leads. -/
def namesIn (tree : FileTree) (place : Place) : List String :=
  let files := (tree.nodes.filter fun entry => !entry.2.isDirectory).map (·.1)
  let names := (files ++ tree.links.map (·.1)).filterMap fun other =>
    if other.dropLast == place then other.getLast? else none
  names.mergeSort (fun a b => !(b < a))

/-- Lists the names in a directory that are no directories. -/
def list (tree : FileTree) (workingDir : Place) (path : String) :
    Except FileError (List String) :=
  match tree.openNode workingDir path with
  | .error e => .error e
  | .ok (_, .file _ _) => .error ⟨"readdirent", path, .notDirectory⟩
  | .ok (place, .directory faults) =>
    match faults.reading with
    | some cause => .error ⟨"readdirent", path, cause⟩
    | none => .ok (tree.namesIn place)

/-! Writing. -/

/-- Opens a file, which is made if it is missing. The result is the tree then, and the place of the
file. -/
def openFile (tree : FileTree) (workingDir : Place) (path : String) (use : Use) :
    Except FileError (FileTree × Place) :=
  match tree.resolve workingDir path with
  | .error cause => .error ⟨"open", path, cause⟩
  | .ok place =>
    match tree.node? place with
    | some (.directory _) => .error ⟨"open", path, .isDirectory⟩
    | some (.file faults _) =>
      match faults.against use with
      | some cause => .error ⟨"open", path, cause⟩
      | none => .ok (tree, place)
    | none =>
      match (tree.faults place.dropLast).changing with
      | some cause => .error ⟨"open", path, cause⟩
      | none => .ok (tree.insert place (.file .free []), place)

/-- Writes to the end of a file that has been opened. Nothing is written when there is nothing to
write. -/
def put (tree : FileTree) (place : Place) (path : String) (bytes : List UInt8) :
    Except FileError FileTree :=
  if bytes.isEmpty then .ok tree
  else match (tree.faults place).writing with
    | some cause => .error ⟨"write", path, cause⟩
    | none => .ok (tree.insert place (.file (tree.faults place) (tree.content place ++ bytes)))

/-- Writes a file anew. If it can be opened but not be written to, it is left empty. -/
def write (tree : FileTree) (workingDir : Place) (path : String) (content : List UInt8) :
    Except FileError FileTree :=
  match tree.openFile workingDir path .both with
  | .error e => .error e
  | .ok (tree, place) =>
    let emptied := tree.insert place (.file (tree.faults place) [])
    match emptied.put place path content with
    | .error _ => .ok emptied
    | .ok tree => .ok tree

/-- Makes one directory if it is missing. -/
def makeDirectory (tree : FileTree) (workingDir : Place) (path : String) :
    Except FileError FileTree :=
  match tree.stat workingDir path with
  | .ok (_, .directory _) => .ok tree
  | .ok (_, .file _ _) => .error ⟨"mkdir", path, .notDirectory⟩
  | .error _ =>
    match tree.locate workingDir path with
    | .error cause => .error ⟨"mkdir", path, cause⟩
    | .ok place =>
      if (tree.node? place).isSome || (tree.link? place).isSome then
        .error ⟨"mkdir", path, .taken⟩
      else match (tree.faults place.dropLast).changing with
        | some cause => .error ⟨"mkdir", path, cause⟩
        | none => .ok (tree.insert place (.directory .free))

/-- The directories that lead to a cleaned path, from the outermost on, and the path itself. -/
def leadingPaths (path : String) : List String :=
  let parts := (Path.components path).filter (· != "")
  let root := if Path.isAbsolute path then "/" else ""
  (List.range (parts.length - 1)).map (fun i =>
    root ++ Text.joined "/" (parts.take (i + 1)) ++ "/") ++ [path]

/-- Makes directories one after the other. What was made before a failure stays. -/
def makeAll (workingDir : Place) : FileTree → List String → FileTree × Option FileError
  | tree, [] => (tree, none)
  | tree, path :: paths =>
    match tree.makeDirectory workingDir path with
    | .ok tree => makeAll workingDir tree paths
    | .error e => (tree, some e)

/-- Makes a directory and all that lead to it. -/
def makeDirectories (tree : FileTree) (workingDir : Place) (path : String) :
    FileTree × Option FileError :=
  makeAll workingDir tree (leadingPaths path)

end FileTree

end TypedForms
