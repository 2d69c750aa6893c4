import TypedForms.Yaml.Tag

/-! Documents as trees. Each node has a tag and the line it starts on, counted from one. A node with
an anchor can be named again by aliases, also from inside of itself, so an alias holds only the
number of the anchor. -/
namespace TypedForms.Yaml

inductive Node where
  | scalar (line : Nat) (tag : Tag) (text : String)
  | sequence (line : Nat) (tag : Tag) (items : List Node)
  | mapping (line : Nat) (tag : Tag) (entries : List (Node × Node))
  | alias (line : Nat) (name : String) (anchor place : Nat)

namespace Node

def line : Node → Nat
  | .scalar line .. => line
  | .sequence line .. => line
  | .mapping line .. => line
  | .alias line .. => line

/-- The text of a scalar or the name in an alias. -/
def text : Node → String
  | .scalar _ _ text => text
  | .alias _ name _ _ => name
  | _ => ""

/-- Whether two nodes are of one kind and have the same text. -/
def looksLike : Node → Node → Bool
  | .scalar _ _ text, .scalar _ _ text' => text == text'
  | .sequence .., .sequence .. => true
  | .mapping .., .mapping .. => true
  | .alias _ name _ _, .alias _ name' _ _ => name == name'
  | _, _ => false

/-- A scalar without a text stands where a node is left out. -/
def missing (line : Nat) : Node := .scalar (line + 1) .null ""

/-- A key that asks for the entries of other mappings. -/
def isMerge : Node → Bool
  | .scalar _ tag text => tag = .merge && text == "<<"
  | _ => false

end Node

/-- A document: its root, the nodes that have anchors, by number, and a number that is not below
that of its nodes. -/
structure Document where
  root : Node
  anchored : List (Nat × Node)
  size : Nat

def Document.anchored? (d : Document) (anchor : Nat) : Option Node := d.anchored.lookup anchor

end TypedForms.Yaml
