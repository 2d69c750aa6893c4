import TypedForms.Yaml.Node
import TypedForms.Yaml.Token.Scan

/-! From tokens to documents. Where tokens end because of a problem with the text, reading ends with
that problem. -/
namespace TypedForms.Yaml

/-- The tokens still to be read, and what is known from those before: the URIs of tag handles, the
latest anchors by name, and the nodes with anchors that are complete. -/
structure Cursor where
  tokens : Tokens
  handles : List (String × String)
  anchors : List (String × Nat)
  anchored : List (Nat × Node)
  nextAnchor : Nat

abbrev Reader (α : Type) := StateT Cursor (Except Problem) α

namespace Reader

def fail (start here : Nat) (cause : Cause) : Reader α :=
  throw (.inNode start here cause)

/-- The next token. -/
def peek : Reader Token := do
  let c ← get
  match c.tokens.list with
  | token :: _ => pure token
  | [] => throw (c.tokens.problem.getD (.anywhere .noContent))

def skip : Reader Unit := modify fun c =>
  { c with tokens := { c.tokens with list := c.tokens.list.tail } }

/-- Skips the next token and looks at the one after it. -/
def next : Reader Token := do
  skip
  peek

/-- What may stand in front of a node: an anchor and a tag, in either order. -/
structure Properties where
  anchor : Option String
  tag : Option (String × String)

def anchor? : Reader (Option String) := do
  match (← peek).kind with
  | .anchor name =>
    skip
    pure (some name)
  | _ => pure none

def tag? : Reader (Option (String × String)) := do
  match (← peek).kind with
  | .tag handle suffix =>
    skip
    pure (some (handle, suffix))
  | _ => pure none

def properties : Reader Properties := do
  match ← anchor? with
  | some name => do
    let tag ← tag?
    pure ⟨some name, tag⟩
  | none => do
    let tag ← tag?
    let anchor ← if tag.isSome then anchor? else pure none
    pure ⟨anchor, tag⟩

/-- The tag that a handle and a suffix stand for. A lone exclamation mark is no tag. -/
def namedTag (line : Nat) : Option (String × String) → Reader (Option Tag)
  | none => pure none
  | some (handle, suffix) => do
    if handle == "" then pure (if suffix == "!" then none else some (.ofName suffix))
    else match (← get).handles.lookup handle with
      | some uri => pure (some (.ofName (uri ++ suffix)))
      | none => fail line line .unknownHandle

/-- Takes up an anchor before its node is read. -/
def enter : Option String → Reader (Option Nat)
  | none => pure none
  | some name => do
    let c ← get
    set { c with anchors := (name, c.nextAnchor) :: c.anchors, nextAnchor := c.nextAnchor + 1 }
    pure (some c.nextAnchor)

/-- Gives a complete node to its anchor. -/
def leave (anchor : Option Nat) (node : Node) : Reader Node := do
  match anchor with
  | none => pure node
  | some number =>
    modify fun c => { c with anchored := (number, node) :: c.anchored }
    pure node

def scalarTag (tag : Option Tag) (isPlain : Bool) (text : String) : Tag :=
  tag.getD (if !isPlain then .str else if text == "<<" then .merge else .ofPlain text)

/-- An alias stands for the latest node with its anchor. Its own place in the text is told by the
number of tokens after it. -/
def aliasNode (line : Nat) (name : String) : Reader Node := do
  skip
  let c ← get
  match c.anchors.lookup name with
  | some anchor => pure (.alias (line + 1) name anchor c.tokens.list.length)
  | none => throw (.anywhere (.unknownAnchor name))

mutual

/-- Reads a node. Outside of brackets it may be a block; where it follows a key or a colon, also a
sequence whose entries stand at the column of the keys. -/
def node : (fuel : Nat) → (inBlock afterKey : Bool) → Reader Node
  | 0, _, _ => throw (.anywhere .noContent)
  | fuel + 1, inBlock, afterKey => do
    let first ← peek
    let line := first.line
    if let .alias name := first.kind then aliasNode line name
    else
      let given ← properties
      let tag ← namedTag line given.tag
      let token ← peek
      match token.kind with
      | .scalar isPlain text =>
        let anchor ← enter given.anchor
        skip
        leave anchor (.scalar (line + 1) (scalarTag tag isPlain text) text)
      | .flowSequenceStart =>
        let anchor ← enter given.anchor
        skip
        let items ← flowItems fuel token.line true
        leave anchor (.sequence (line + 1) (tag.getD .seq) items)
      | .flowMappingStart =>
        let anchor ← enter given.anchor
        skip
        let entries ← flowEntries fuel token.line true
        leave anchor (.mapping (line + 1) (tag.getD .map) entries)
      | kind =>
        if afterKey && kind = .blockEntry then
          let anchor ← enter given.anchor
          let items ← sharedItems fuel
          leave anchor (.sequence (line + 1) (tag.getD .seq) items)
        else if inBlock && kind = .blockSequenceStart then
          let anchor ← enter given.anchor
          skip
          let items ← blockItems fuel token.line
          leave anchor (.sequence (line + 1) (tag.getD .seq) items)
        else if inBlock && kind = .blockMappingStart then
          let anchor ← enter given.anchor
          skip
          let entries ← blockEntries fuel token.line
          leave anchor (.mapping (line + 1) (tag.getD .map) entries)
        else if given.anchor.isSome || given.tag.isSome then
          let anchor ← enter given.anchor
          leave anchor (.scalar (line + 1) (scalarTag tag true "") "")
        else fail line token.line .noContent

/-- Reads a node in a block, or none if a token follows that cannot start one. -/
def blockNode : (fuel : Nat) → (line : Nat) → (ends : List Token.Kind) → (afterKey : Bool) →
    Reader Node
  | 0, _, _, _ => throw (.anywhere .noContent)
  | fuel + 1, line, ends, afterKey => do
    if ends.contains (← peek).kind then pure (.missing line) else node fuel true afterKey

/-- Reads the entries of a sequence that has a block of its own. -/
def blockItems : (fuel : Nat) → (start : Nat) → Reader (List Node)
  | 0, _ => throw (.anywhere .noContent)
  | fuel + 1, start => do
    let token ← peek
    match token.kind with
    | .blockEntry =>
      skip
      let item ← blockNode fuel token.line [.blockEntry, .blockEnd] false
      let items ← blockItems fuel start
      pure (item :: items)
    | .blockEnd =>
      skip
      pure []
    | _ => fail start token.line .noDash

/-- Reads the entries of a sequence in the block of a mapping. -/
def sharedItems : (fuel : Nat) → Reader (List Node)
  | 0 => throw (.anywhere .noContent)
  | fuel + 1 => do
    let token ← peek
    match token.kind with
    | .blockEntry =>
      skip
      let item ← blockNode fuel token.line [.blockEntry, .key, .value, .blockEnd] false
      let items ← sharedItems fuel
      pure (item :: items)
    | _ => pure []

/-- Reads the entries of a mapping in a block. -/
def blockEntries : (fuel : Nat) → (start : Nat) → Reader (List (Node × Node))
  | 0, _ => throw (.anywhere .noContent)
  | fuel + 1, start => do
    let token ← peek
    match token.kind with
    | .key =>
      skip
      let ends := [.key, .value, .blockEnd]
      let key ← blockNode fuel token.line ends true
      let colon ← peek
      let value ←
        if colon.kind = .value then do
          skip
          blockNode fuel colon.line ends true
        else pure (.missing colon.line)
      let entries ← blockEntries fuel start
      pure ((key, value) :: entries)
    | .blockEnd =>
      skip
      pure []
    | _ => fail start token.line .noKey

/-- Reads a value inside of brackets after its key: a colon and a node, of which both or the node
may be left out. -/
def flowValue : (fuel : Nat) → (closing : Token.Kind) → Reader Node
  | 0, _ => throw (.anywhere .noContent)
  | fuel + 1, closing => do
    let token ← peek
    if token.kind = .value then
      let after ← next
      if after.kind = .flowEntry || after.kind = closing then pure (.missing after.line)
      else node fuel false false
    else pure (.missing token.line)

/-- Reads the items of a sequence in brackets. An item with a colon is a mapping of one entry; if
its key is left out, the token that shows that is gone. -/
def flowItems : (fuel : Nat) → (start : Nat) → (isFirst : Bool) → Reader (List Node)
  | 0, _, _ => throw (.anywhere .noContent)
  | fuel + 1, start, isFirst => do
    let token ← peek
    if token.kind = .flowSequenceEnd then
      skip
      pure []
    else if !isFirst && token.kind ≠ .flowEntry then fail start token.line .noCommaOrBracket
    else
      let token ← if isFirst then pure token else next
      match token.kind with
      | .flowSequenceEnd =>
        skip
        pure []
      | .key =>
        let after ← next
        let key ←
          if after.kind = .value || after.kind = .flowEntry || after.kind = .flowSequenceEnd then do
            skip
            pure (.missing after.line)
          else node fuel false false
        let value ← flowValue fuel .flowSequenceEnd
        let items ← flowItems fuel start false
        pure (.mapping (token.line + 1) .map [(key, value)] :: items)
      | _ =>
        let item ← node fuel false false
        let items ← flowItems fuel start false
        pure (item :: items)

/-- Reads the entries of a mapping in brackets. -/
def flowEntries : (fuel : Nat) → (start : Nat) → (isFirst : Bool) → Reader (List (Node × Node))
  | 0, _, _ => throw (.anywhere .noContent)
  | fuel + 1, start, isFirst => do
    let token ← peek
    if token.kind = .flowMappingEnd then
      skip
      pure []
    else if !isFirst && token.kind ≠ .flowEntry then fail start token.line .noCommaOrBrace
    else
      let token ← if isFirst then pure token else next
      match token.kind with
      | .flowMappingEnd =>
        skip
        pure []
      | .key =>
        let after ← next
        let key ←
          if after.kind = .value || after.kind = .flowEntry || after.kind = .flowMappingEnd then
            pure (.missing after.line)
          else node fuel false false
        let value ← flowValue fuel .flowMappingEnd
        let entries ← flowEntries fuel start false
        pure ((key, value) :: entries)
      | _ =>
        let key ← node fuel false false
        let value := Node.missing (← peek).line
        let entries ← flowEntries fuel start false
        pure ((key, value) :: entries)

end

/-- The handles that are known without a directive. -/
def knownHandles : List (String × String) := [("!", "!"), ("!!", Tag.commonStart)]

/-- Reads the directives in front of a document. -/
def directives : (fuel : Nat) → (hasVersion : Bool) → Reader Unit
  | 0, _ => throw (.anywhere .noContent)
  | fuel + 1, hasVersion => do
    let token ← peek
    match token.kind with
    | .version major minor =>
      if hasVersion then fail 0 token.line .repeatedVersion
      else if major ≠ 1 || minor ≠ 1 then fail 0 token.line .otherVersion
      else
        skip
        directives fuel true
    | .handle name uri =>
      if ((← get).handles.lookup name).isSome then fail 0 token.line .repeatedHandle
      else
        modify fun c => { c with handles := c.handles ++ [(name, uri)] }
        skip
        directives fuel hasVersion
    | _ => modify fun c => { c with handles := c.handles ++ knownHandles }

/-- Reads what follows the start of a document; it may have nothing in it. -/
def content (fuel : Nat) : Reader Node := do
  let token ← peek
  match token.kind with
  | .version .. | .handle .. | .documentStart | .documentEnd | .streamEnd =>
    pure (.missing token.line)
  | _ => node fuel true false

/-- Reads the first document, with the token that ends it; a text may have none. -/
def document (fuel : Nat) : Reader (Option Node) := do
  match (← peek).kind with
  | .streamEnd => pure none
  | .version .. | .handle .. | .documentStart =>
    directives fuel false
    let token ← peek
    if token.kind ≠ .documentStart then fail 0 token.line .noDocumentStart
    else
      skip
      let root ← content fuel
      let _ ← peek
      pure (some root)
  | _ =>
    directives fuel false
    let root ← node fuel true false
    let _ ← peek
    pure (some root)

end Reader

/-- The first document of a text. -/
def Document.ofText (text : String) : Except Problem (Option Document) := do
  let tokens := Tokens.ofSource (.ofText text)
  let fuel := 4 * tokens.list.length + 8
  let (root, c) ← (Reader.document fuel).run ⟨tokens, [], [], [], 0⟩
  .ok (root.map fun root => ⟨root, c.anchored, fuel⟩)

end TypedForms.Yaml
