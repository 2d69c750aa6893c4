import TypedForms.Config
import TypedForms.Text.Base64
import TypedForms.Text.Utf8
import TypedForms.Yaml.Node.Read

/-! Reading configurations from documents. Problems with the shape of a document are collected, in
the order of the document; problems with its aliases and tags end the reading. -/
namespace TypedForms.Config

open Yaml (Node Tag Document Cause)

/-- Why a text gives no options. -/
inductive DecodeError where
  | notWellFormed (problem : Yaml.Problem)
  | collectionKey
  | shape (problems : List String)
  | options (problem : Problem)

def DecodeError.message : DecodeError → String
  | .notWellFormed problem => "parse: yaml: " ++ problem.message
  | .collectionKey => "parse: yaml: a collection cannot be a key where others are merged"
  | .shape problems =>
    "parse: yaml: unmarshal errors:\n  " ++ Text.joined "\n  " problems
  | .options problem => problem.message

/-- What a node can be stored in. -/
inductive Slot where
  | file | eval | readType | policy | resultType
  deriving DecidableEq

namespace Slot

def typeName : Slot → String
  | .file => "config.File"
  | .eval => "config.EvalFile"
  | _ => "string"

def fields : Slot → List (String × Slot)
  | .file => [("read_type", .readType), ("eval", .eval)]
  | .eval => [("policy", .policy), ("result_type", .resultType)]
  | _ => []

def isText (slot : Slot) : Bool := slot.fields.isEmpty

def store (slot : Slot) (text : String) (c : Config) : Config :=
  match slot with
  | .readType => { c with readType := text }
  | .policy => { c with policy := text }
  | .resultType => { c with resultType := text }
  | _ => c

end Slot

/-- What is known of a document so far: the configuration, its problems, the latest first, how many
nodes were visited, how many of those through aliases, and the aliases that are being followed. -/
structure Progress where
  config : Config
  problems : List String
  visits : Nat
  aliased : Nat
  active : List Nat

abbrev Decoder (α : Type) := StateT Progress (Except DecodeError) α

namespace Decoder

def fail (cause : Cause) : Decoder α := throw (.notWellFormed (.anywhere cause))

def note (line : Nat) (problem : String) : Decoder Unit := modify fun p =>
  { p with problems := ("line " ++ toString line ++ ": " ++ problem) :: p.problems }

/-- The share of visits that may come through aliases, in parts of 360 million: 99 of 100 for up to
400000 visits, then falling to 10 of 100 for ten times as many. -/
def allowedShare (visits : Nat) : Nat :=
  356400000 - 89 * (min visits 4000000 - 400000)

/-- Whether too many visits came through aliases. A few are always allowed. -/
def isExcessive (p : Progress) : Bool :=
  p.aliased > 100 && p.visits > 1000 && p.aliased * 360000000 > p.visits * allowedShare p.visits

def visit : Decoder Unit := do
  modify fun p =>
    { p with visits := p.visits + 1, aliased := p.aliased + if p.active.isEmpty then 0 else 1 }
  if isExcessive (← get) then fail .manyAliases

/-- Visits a node and uses what it stands for, which for an alias is the node that it names. An
alias is not followed again before it has been dealt with. -/
def onTarget (d : Document) (node : Node) (use : Node → Decoder α) : Decoder α := do
  visit
  match node with
  | .alias _ name anchor place =>
    match d.anchored? anchor with
    | none => fail (.unknownAnchor name)
    | some target =>
      if (← get).active.contains place then fail (.endlessAnchor name)
      else
        modify fun p => { p with active := place :: p.active }
        visit
        let result ← use target
        modify fun p => { p with active := p.active.tail }
        pure result
  | node => use node

/-- The text of a scalar with a tag; null is none. -/
def scalarText (tag : Tag) (text : String) : Decoder (Option String) :=
  match tag.check text with
  | .error cause => fail cause
  | .ok .null => pure none
  | .ok .binary =>
    match Text.Base64.decode? text.toList with
    | some bytes => pure (some (Text.Utf8.text bytes))
    | none => fail .badBase64
  | .ok _ => pure (some text)

/-- A scalar as problems show it: of a long one only the first seven bytes. -/
def shown (text : String) : String :=
  let bytes := Text.Utf8.bytes text
  if bytes.length > 10 then String.ofList (Text.Utf8.decode (bytes.take 7)) ++ "..." else text

/-- Notes that a node does not fit. -/
def misfit (line : Nat) (tag : Tag) (text : String) (typeName : String) : Decoder Unit :=
  let value :=
    if tag = .seq || tag = .map then text else " \x60" ++ shown text ++ "\x60"
  note line ("cannot unmarshal " ++ tag.name ++ value ++ " into " ++ typeName)

/-- Notes each two keys that look alike, and tells whether there are any. -/
def repeatedKeys : List (Node × Node) → Decoder Bool
  | [] => pure false
  | (key, _) :: entries => do
    let alike := entries.filter fun entry => key.looksLike entry.1
    alike.forM fun entry =>
      note entry.1.line ("mapping key " ++ Text.quote entry.1.text ++ " already defined at line " ++
        toString key.line)
    let others ← repeatedKeys entries
    pure (!alike.isEmpty || others)

/-- Notes that a node is no text. -/
def noText : Node → Decoder Unit
  | .sequence line tag _ => misfit line tag "" "string"
  | .mapping line tag entries => do
    if !(← repeatedKeys entries) then misfit line tag "" "string"
  | _ => pure ()

/-- The text in a node, if it has any. -/
def textOf (d : Document) (node : Node) : Decoder (Option String) :=
  onTarget d node fun
    | .scalar _ tag text => scalarText tag text
    | node => do
      noText node
      pure none

/-- The texts among the keys of a mapping that asks for the entries of others. -/
def keyTexts (d : Document) : List (Node × Node) → Decoder (List String)
  | [] => pure []
  | (key, _) :: entries => do
    let text ← onTarget d key fun
      | .scalar _ tag text => do
        let text ← scalarText tag text
        pure (if tag.isChecked then none else text)
      | .mapping _ _ inner => do
        if ← repeatedKeys inner then pure none else throw .collectionKey
      | _ => throw .collectionKey
    let others ← keyTexts d entries
    pure (text.toList ++ others)

/-- The mappings that the value of a merge key stands for. -/
def merged (d : Document) (value : Node) : Decoder (List Node) :=
  let isMapping : Node → Bool
    | .mapping .. => true
    | .alias _ _ anchor _ => match d.anchored? anchor with
      | some (.mapping ..) => true
      | _ => false
    | _ => false
  match value with
  | .sequence _ _ items => if items.all isMapping then pure items else fail .badMerge
  | node => if isMapping node then pure [node] else fail .badMerge

/-- Goes through the entries of a mapping whose keys name fields. `store` stores a value. While a
mapping is merged into another, `known` holds the keys so far, which are passed over. -/
def fields (d : Document) (store : Slot → Node → Decoder Unit) (slot : Slot) :
    (done : List String) → (known : Option (List String)) → List (Node × Node) →
    Decoder (Option (List String))
  | _, known, [] => pure known
  | done, known, (key, value) :: entries => do
    if key.isMerge then fields d store slot done known entries
    else match ← textOf d key with
      | none => fields d store slot done known entries
      | some name =>
        if known.any (·.contains name) then fields d store slot done known entries
        else
          let known := known.map (name :: ·)
          match slot.fields.lookup name with
          | none =>
            note key.line ("field " ++ name ++ " not found in type " ++ slot.typeName)
            fields d store slot done known entries
          | some field =>
            if done.contains name then
              note key.line ("field " ++ name ++ " already set in type " ++ slot.typeName)
              fields d store slot done known entries
            else
              store field value
              fields d store slot (name :: done) known entries

/-- Does something with each node and the keys that are known by then. -/
def inTurn (use : Option (List String) → Node → Decoder (Option (List String))) :
    Option (List String) → List Node → Decoder (Option (List String))
  | known, [] => pure known
  | known, node :: nodes => do inTurn use (← use known node) nodes

/-- Stores a node in a slot; null leaves it as it is. The entries of merged mappings come after
those of the mapping itself. -/
def store (d : Document) : (fuel : Nat) → Slot → (known : Option (List String)) → Node →
    Decoder (Option (List String))
  | 0, _, known, _ => pure known
  | fuel + 1, slot, known, node => onTarget d node fun
    | .scalar line tag text => do
      match ← scalarText tag text with
      | none => pure known
      | some value =>
        if slot.isText then modify fun p => { p with config := slot.store value p.config }
        else misfit line tag text slot.typeName
        pure known
    | .sequence line tag _ => do
      misfit line tag "" slot.typeName
      pure known
    | .mapping line tag entries => do
      if ← repeatedKeys entries then pure known
      else if slot.isText then
        misfit line tag "" slot.typeName
        pure known
      else
        let inner := fun field value => do let _ ← store d fuel field none value
        let known ← fields d inner slot [] known entries
        match entries.find? (·.1.isMerge) with
        | none => pure known
        | some (_, value) =>
          let start ← if known.isSome then pure known else some <$> keyTexts d entries
          let after ← inTurn (store d fuel slot) start (← merged d value)
          pure (if known.isSome then after else none)
    | .alias .. => pure known

end Decoder

/-- The configuration in a document. -/
def ofDocument (d : Document) : Except DecodeError Config := do
  let (_, p) ← (Decoder.store d ((d.size + 1) * (d.size + 1)) .file none d.root).run
    ⟨empty, [], 1, 0, []⟩
  if p.problems.isEmpty then .ok p.config else .error (.shape p.problems.reverse)

/-- The options in the text of a configuration. A text without a document gives the
standard ones. -/
def decode (text : String) : Except DecodeError Options := do
  let config ← match Document.ofText text with
    | .error problem => .error (.notWellFormed problem)
    | .ok none => .ok empty
    | .ok (some document) => ofDocument document
  match config.options with
  | .ok options => .ok options
  | .error problem => .error (.options problem)

/-- The options in the bytes of a configuration. -/
def decodeBytes (bytes : List UInt8) : Except DecodeError Options :=
  if Text.Utf8.isText bytes then decode (Text.Utf8.text bytes)
  else .error (.notWellFormed (.anywhere .invalidText))

end TypedForms.Config
