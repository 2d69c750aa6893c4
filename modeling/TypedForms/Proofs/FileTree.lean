import TypedForms.FileTree
import TypedForms.Proofs.Text.Split

/-! What operations leave behind in a file tree. No operation takes a directory or a link away, or
puts something in the way of using a node, so that a path that leads to a place goes on leading
there; and what a file contains changes only where it is written to. -/
namespace TypedForms.FileTree

variable {tree tree' tree'' : FileTree} {place other parent workingDir : Place} {path : String}
  {node : FileNode} {use : Use} {bytes : List UInt8} {component : String} {components : List String}

/-! What is at a place. -/

def hasFile (tree : FileTree) (place : Place) : Bool :=
  (tree.node? place).any fun node => !node.isDirectory

theorem node?_of_hasDirectory (isDirectory : tree.hasDirectory place = true) :
    tree.node? place = some (.directory (tree.faults place)) := by
  unfold hasDirectory at isDirectory
  unfold faults
  cases found : tree.node? place with
  | none => simp [found] at isDirectory
  | some node =>
    cases node with
    | directory faults => rfl
    | file faults content => simp [found, FileNode.isDirectory] at isDirectory

theorem node?_of_hasFile (isFile : tree.hasFile place = true) :
    tree.node? place = some (.file (tree.faults place) (tree.content place)) := by
  unfold hasFile at isFile
  unfold faults content
  cases found : tree.node? place with
  | none => simp [found] at isFile
  | some node =>
    cases node with
    | directory faults => simp [found, FileNode.isDirectory] at isFile
    | file faults content => rfl

theorem hasDirectory_of_node? {faults : Faults}
    (found : tree.node? place = some (.directory faults)) : tree.hasDirectory place = true := by
  rw [hasDirectory, found]
  rfl

theorem hasFile_of_node? {faults : Faults} (found : tree.node? place = some (.file faults bytes)) :
    tree.hasFile place = true := by
  rw [hasFile, found]
  rfl

theorem hasDirectory_of_hasFile (isFile : tree.hasFile place = true) :
    tree.hasDirectory place = false := by
  rw [hasDirectory, node?_of_hasFile isFile]
  rfl

theorem faults_of_node? (found : tree.node? place = some node) :
    tree.faults place = node.faults := by
  rw [faults, found]
  rfl

theorem hasDirectory_of_absent (absent : tree.node? place = none) :
    tree.hasDirectory place = false := by
  rw [hasDirectory, absent]
  rfl

theorem faults_of_absent (absent : tree.node? place = none) : tree.faults place = .free := by
  rw [faults, absent]
  rfl

theorem content_of_absent (absent : tree.node? place = none) : tree.content place = [] := by
  rw [content, absent]

theorem Fits.ne_nil (fits : tree.Fits place) : place ≠ [] := by
  rintro rfl
  exact Bool.false_ne_true fits.named

theorem links_insert : (tree.insert place node).links = tree.links := by
  unfold insert
  split <;> rfl

theorem node?_insert_self (fits : tree.Fits place) :
    (tree.insert place node).node? place = some node := by
  have gone : (tree.nodes.filter (·.1 != place)).lookup place = none := by
    rw [List.lookup_eq_none_iff]
    intro entry member
    rw [bne_comm]
    exact (List.mem_filter.mp member).2
  simp [node?, insert, fits, fits.ne_nil, replaced, List.lookup_append, gone]

theorem node?_insert_of_ne (different : other ≠ place) :
    (tree.insert place node).node? other = tree.node? other := by
  unfold insert
  split
  · simp [node?, lookup_replaced_of_ne different]
  · rfl

theorem insert_of_not_fits (unfit : ¬ tree.Fits place) : tree.insert place node = tree :=
  dif_neg unfit

/-! What stays. -/

/-- Links stay, directories and files stay what they are, and nothing new stands in the way of
using them. -/
structure Keeps (tree tree' : FileTree) : Prop where
  links : tree'.links = tree.links
  faults : ∀ place, tree'.faults place = tree.faults place
  directories : ∀ place, tree.hasDirectory place = true → tree'.hasDirectory place = true
  files : ∀ place, tree.hasFile place = true → tree'.hasFile place = true

namespace Keeps

theorem refl : tree.Keeps tree := ⟨rfl, fun _ => rfl, fun _ found => found, fun _ found => found⟩

theorem trans (first : tree.Keeps tree') (second : tree'.Keeps tree'') : tree.Keeps tree'' where
  links := second.links.trans first.links
  faults place := (second.faults place).trans (first.faults place)
  directories place found := second.directories place (first.directories place found)
  files place found := second.files place (first.files place found)

/-- A node can be put where no directory is, if it can be used as what was there before. -/
theorem insert (sameFaults : node.faults = tree.faults place)
    (sameKind : tree.hasFile place = true → node.isDirectory = false) :
    tree.Keeps (tree.insert place node) := by
  by_cases fits : tree.Fits place
  · have atPlace := @node?_insert_self tree place node fits
    refine ⟨links_insert, ?_, ?_, ?_⟩
    · intro other
      by_cases same : other = place
      · rw [same, faults_of_node? atPlace, sameFaults]
      · rw [FileTree.faults, node?_insert_of_ne same, FileTree.faults]
    · intro other found
      have different : other ≠ place := by
        rintro rfl
        exact Bool.false_ne_true (fits.free.symm.trans found)
      rwa [hasDirectory, node?_insert_of_ne different]
    · intro other found
      by_cases same : other = place
      · rw [same] at found ⊢
        rw [hasFile, atPlace, Option.any_some, sameKind found]
        rfl
      · rwa [hasFile, node?_insert_of_ne same]
  · rw [insert_of_not_fits fits]
    exact refl

end Keeps

/-! Paths go on leading where they lead. -/

theorem hasDirectory_of_follow (followed : tree.follow place component = .ok other) :
    tree.hasDirectory place = true := by
  unfold follow at followed
  split at followed
  next => cases followed
  next => cases followed
  next found => exact hasDirectory_of_node? found

namespace Keeps

theorem link? (keeps : tree.Keeps tree') : tree'.link? place = tree.link? place := by
  rw [FileTree.link?, keeps.links, FileTree.link?]

theorem follow (keeps : tree.Keeps tree') (followed : tree.follow place component = .ok other) :
    tree'.follow place component = .ok other := by
  have isDirectory := hasDirectory_of_follow followed
  have before := node?_of_hasDirectory isDirectory
  have after := node?_of_hasDirectory (keeps.directories place isDirectory)
  rw [keeps.faults] at after
  rw [← followed, FileTree.follow, FileTree.follow, before, after]

theorem followAll {jump jump' : Place → String → List String → Except FileCause Place}
    (keeps : tree.Keeps tree')
    (jumps : ∀ place target rest, jump place target rest = .ok other →
      jump' place target rest = .ok other)
    (followed : tree.followAll jump place components = .ok other) :
    tree'.followAll jump' place components = .ok other := by
  induction components generalizing place with
  | nil => exact followed
  | cons component rest ih =>
    unfold FileTree.followAll at followed ⊢
    split at followed
    next => cases followed
    next next step =>
      simp only [keeps.follow step, keeps.link?]
      split at followed
      next target linked => exact jumps place target rest followed
      next unlinked => exact ih followed

theorem walk {links : Nat} (keeps : tree.Keeps tree')
    (walked : tree.walk links place components = .ok other) :
    tree'.walk links place components = .ok other := by
  induction links generalizing place components with
  | zero =>
    refine keeps.followAll ?_ walked
    intro place target rest jumped
    cases jumped
  | succ links ih =>
    refine keeps.followAll ?_ walked
    intro place target rest jumped
    exact ih jumped

theorem resolve (keeps : tree.Keeps tree') (leads : tree.resolve workingDir path = .ok place) :
    tree'.resolve workingDir path = .ok place := by
  unfold FileTree.resolve at leads ⊢
  split at leads
  next => cases leads
  next => exact keeps.walk leads

end Keeps

/-! Paths lead to places where something fits. -/

theorem mem_of_lookup_eq_some {α : Type} {entries : List (Place × α)} {value : α}
    (found : entries.lookup place = some value) : (place, value) ∈ entries := by
  obtain ⟨before, after, rfl, -⟩ := List.lookup_eq_some_iff.mp found
  exact List.mem_append_right _ List.mem_cons_self

/-- The root, or a place with a proper name inside of a directory. -/
def Reached (tree : FileTree) (place : Place) : Prop :=
  place = [] ∨ place.getLast?.any Path.isName = true ∧ tree.hasDirectory place.dropLast = true

theorem reached_of_hasDirectory (isDirectory : tree.hasDirectory place = true) :
    tree.Reached place := by
  by_cases root : place = []
  · exact .inl root
  · have found := node?_of_hasDirectory isDirectory
    rw [node?, if_neg (by simpa using root)] at found
    have listed : place ∈ tree.nodes.map (·.1) ++ tree.links.map (·.1) :=
      List.mem_append_left _ (List.mem_map_of_mem (mem_of_lookup_eq_some found))
    rw [Reached, hasDirectory_eq]
    exact .inr (tree.inside place listed)

/-- The characters that no component of a path contains. -/
def Plain (component : String) : Prop := '/' ∉ component.toList ∧ '\x00' ∉ component.toList

theorem plain_of_mem_components (sound : FileCause.ofPath? path = none)
    (member : component ∈ Path.components path) : Plain component := by
  obtain ⟨piece, pieceMember, rfl⟩ := List.mem_map.mp member
  rw [Plain, String.toList_ofList]
  refine ⟨Text.not_mem_of_mem_split pieceMember, ?_⟩
  intro nul
  obtain ⟨inPath, -⟩ := Text.of_mem_split pieceMember nul
  simp [FileCause.ofPath?, inPath] at sound

theorem reached_of_follow (plain : Plain component)
    (followed : tree.follow place component = .ok other) : tree.Reached other := by
  have isDirectory := hasDirectory_of_follow followed
  have here := reached_of_hasDirectory isDirectory
  unfold follow at followed
  rw [node?_of_hasDirectory isDirectory] at followed
  simp only at followed
  split at followed
  next =>
    cases followed
    exact here
  next named =>
    split at followed
    next => cases followed
    next =>
      split at followed
      next =>
        cases followed
        exact here
      next notDot =>
        split at followed
        next =>
          cases followed
          rcases here with rfl | ⟨-, above⟩
          · exact .inl rfl
          · exact reached_of_hasDirectory above
        next notUp =>
          split at followed
          next => cases followed
          next short =>
            cases followed
            have isName : Path.isName component = true := by
              simp_all [Path.isName, Plain]
            right
            rw [List.getLast?_concat, List.dropLast_concat]
            exact ⟨isName, isDirectory⟩

/-- Where a walk ends: at a place that is reached and is no link. -/
structure Settled (tree : FileTree) (place : Place) : Prop where
  reached : tree.Reached place
  unlinked : tree.link? place = none

theorem settled_of_followAll {jump : Place → String → List String → Except FileCause Place}
    (jumps : ∀ place target rest, FileCause.ofPath? target = none →
      (∀ component ∈ rest, Plain component) → jump place target rest = .ok other →
      tree.Settled other)
    (plain : ∀ component ∈ components, Plain component) (nonempty : components ≠ [])
    (followed : tree.followAll jump place components = .ok other) : tree.Settled other := by
  induction components generalizing place with
  | nil => contradiction
  | cons component rest ih =>
    obtain ⟨first, others⟩ := List.forall_mem_cons.mp plain
    unfold followAll at followed
    split at followed
    next => cases followed
    next next step =>
      split at followed
      next target linked =>
        have listed := mem_of_lookup_eq_some linked
        exact jumps place target rest (tree.targets _ listed) others followed
      next unlinked =>
        cases rest with
        | nil =>
          cases followed
          exact ⟨reached_of_follow first step, unlinked⟩
        | cons second rest => exact ih others (List.cons_ne_nil _ _) followed

theorem components_ne_nil : Path.components path ≠ [] := by
  simp [Path.components, Text.split_ne_nil]

theorem settled_of_walk {links : Nat} (plain : ∀ component ∈ components, Plain component)
    (nonempty : components ≠ []) (walked : tree.walk links place components = .ok other) :
    tree.Settled other := by
  induction links generalizing place components with
  | zero =>
    refine settled_of_followAll ?_ plain nonempty walked
    intro place target rest _ _ jumped
    cases jumped
  | succ links ih =>
    refine settled_of_followAll ?_ plain nonempty walked
    intro place target rest sound others jumped
    apply ih ?_ (List.append_ne_nil_of_left_ne_nil components_ne_nil _) jumped
    intro component member
    rcases List.mem_append.mp member with inTarget | later
    · exact plain_of_mem_components sound inTarget
    · exact others component later

theorem settled_of_resolve (leads : tree.resolve workingDir path = .ok place) :
    tree.Settled place := by
  unfold resolve at leads
  split at leads
  next => cases leads
  next sound =>
    exact settled_of_walk (fun _ => plain_of_mem_components sound) components_ne_nil leads

theorem fits_of_reached (reached : tree.Reached place) (unlinked : tree.link? place = none)
    (free : tree.hasDirectory place = false) : tree.Fits place := by
  rcases reached with rfl | ⟨named, inside⟩
  · cases free
  · exact ⟨named, inside, free, unlinked⟩

theorem fits_of_resolve (leads : tree.resolve workingDir path = .ok place)
    (free : tree.hasDirectory place = false) : tree.Fits place :=
  fits_of_reached (settled_of_resolve leads).reached (settled_of_resolve leads).unlinked free

theorem reached_of_locate (leads : tree.locate workingDir path = .ok place) :
    tree.Reached place := by
  unfold locate at leads
  split at leads
  next => cases leads
  next sound =>
    simp only at leads
    split at leads
    next => cases leads
    next parent walked =>
      refine reached_of_follow ?_ leads
      cases last : ((Path.components path).filter (· != "")).getLast? with
      | none => exact ⟨List.not_mem_nil, List.not_mem_nil⟩
      | some component =>
        have member := List.mem_of_getLast? last
        exact plain_of_mem_components sound (List.mem_filter.mp member).1

/-! Making directories and files. -/

/-- Everything stays, and the files contain the same. -/
structure Extends (tree tree' : FileTree) : Prop where
  keeps : tree.Keeps tree'
  content : ∀ place, tree'.content place = tree.content place

namespace Extends

theorem refl : tree.Extends tree := ⟨.refl, fun _ => rfl⟩

theorem trans (first : tree.Extends tree') (second : tree'.Extends tree'') :
    tree.Extends tree'' :=
  ⟨first.keeps.trans second.keeps,
    fun place => (second.content place).trans (first.content place)⟩

/-- An empty file or a directory can be made where nothing is. -/
theorem insert (absent : tree.node? place = none) (usable : node.faults = .free)
    (nothing : (tree.insert place node).content place = []) :
    tree.Extends (tree.insert place node) := by
  refine ⟨.insert ?_ ?_, ?_⟩
  · rw [usable, faults_of_absent absent]
  · intro isFile
    rw [hasFile, absent] at isFile
    cases isFile
  · intro other
    by_cases same : other = place
    · rw [same, nothing, content_of_absent absent]
    · rw [FileTree.content, node?_insert_of_ne same, FileTree.content]

theorem makeDirectory (made : tree.makeDirectory workingDir path = .ok tree') :
    tree.Extends tree' := by
  unfold FileTree.makeDirectory at made
  split at made
  next =>
    cases made
    exact refl
  next => cases made
  next =>
    split at made
    next => cases made
    next place leads =>
      split at made
      next => cases made
      next untaken =>
        split at made
        next => cases made
        next =>
          cases made
          simp only [Bool.or_eq_true, not_or, Bool.not_eq_true, Option.isSome_eq_false_iff,
            Option.isNone_iff_eq_none] at untaken
          obtain ⟨absent, unlinked⟩ := untaken
          have free := hasDirectory_of_absent absent
          have fits := fits_of_reached (reached_of_locate leads) unlinked free
          refine insert absent rfl ?_
          rw [FileTree.content, node?_insert_self fits]

theorem makeAll {paths : List String} : tree.Extends (makeAll workingDir tree paths).1 := by
  induction paths generalizing tree with
  | nil => exact refl
  | cons path paths ih =>
    rw [FileTree.makeAll]
    split
    next made => exact (makeDirectory made).trans ih
    next => exact refl

end Extends

/-! Opening and writing files. -/

/-- A path leads to a file that is there and can be opened. -/
structure Opens (tree : FileTree) (workingDir : Place) (path : String) (use : Use)
    (place : Place) : Prop where
  leads : tree.resolve workingDir path = .ok place
  isFile : tree.hasFile place = true
  allowed : (tree.faults place).against use = none

namespace Opens

theorem openFile_eq (opens : tree.Opens workingDir path use place) :
    tree.openFile workingDir path use = .ok (tree, place) := by
  simp only [openFile, opens.leads, node?_of_hasFile opens.isFile, opens.allowed]

/-- What can be opened can be opened later. -/
theorem keep (opens : tree.Opens workingDir path use place) (keeps : tree.Keeps tree') :
    tree'.Opens workingDir path use place where
  leads := keeps.resolve opens.leads
  isFile := keeps.files place opens.isFile
  allowed := by
    rw [keeps.faults]
    exact opens.allowed

theorem fits (opens : tree.Opens workingDir path use place) : tree.Fits place :=
  fits_of_resolve opens.leads (hasDirectory_of_hasFile opens.isFile)

theorem read_eq (opens : tree.Opens workingDir path .read place)
    (readable : (tree.faults place).reading = none) :
    tree.read workingDir path = .ok (tree.content place) := by
  have opening : (tree.faults place).opening = none := opens.allowed
  simp only [FileTree.read, openNode, stat, opens.leads, node?_of_hasFile opens.isFile,
    FileNode.faults, opening, readable]

end Opens

theorem against_free : Faults.free.against use = none := by
  cases use <;> rfl

/-- A file that was opened is there then, and nothing else has changed. -/
theorem extends_openFile (opened : tree.openFile workingDir path use = .ok (tree', place)) :
    tree.Extends tree' ∧ tree'.Opens workingDir path use place := by
  unfold openFile at opened
  split at opened
  next => cases opened
  next place leads =>
    split at opened
    next => cases opened
    next faults content found =>
      split at opened
      next => cases opened
      next allowed =>
        cases opened
        refine ⟨.refl, leads, hasFile_of_node? found, ?_⟩
        rwa [faults_of_node? found]
    next absent =>
      split at opened
      next => cases opened
      next =>
        cases opened
        have fits := fits_of_resolve leads (hasDirectory_of_absent absent)
        have made := @node?_insert_self tree place (.file .free []) fits
        have extends' : tree.Extends (tree.insert place (.file .free [])) := by
          refine .insert absent rfl ?_
          rw [content, made]
        refine ⟨extends', extends'.keeps.resolve leads, hasFile_of_node? made, ?_⟩
        rw [faults_of_node? made]
        exact against_free

/-- Writing to the end of an opened file adds to its content, unless that fails. -/
theorem of_put_eq_ok (opens : tree.Opens workingDir path use place)
    (written : tree.put place path bytes = .ok tree') :
    tree.Keeps tree' ∧ tree'.content place = tree.content place ++ bytes := by
  unfold put at written
  split at written
  next nothing =>
    cases written
    rw [List.isEmpty_iff.mp nothing, List.append_nil]
    exact ⟨.refl, rfl⟩
  next =>
    split at written
    next => cases written
    next =>
      cases written
      refine ⟨.insert rfl (fun _ => rfl), ?_⟩
      rw [content, node?_insert_self opens.fits]

end TypedForms.FileTree
