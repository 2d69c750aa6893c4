/-! The tokens of documents. Blocks have no marks of their own in a text: the tokens that start and
end them, and those in front of keys, follow from columns and colons. -/
namespace TypedForms.Yaml

inductive Token.Kind where
  | streamEnd
  | version (major minor : Nat)
  | handle (name uri : String)
  | documentStart
  | documentEnd
  | blockSequenceStart
  | blockMappingStart
  | blockEnd
  | flowSequenceStart
  | flowSequenceEnd
  | flowMappingStart
  | flowMappingEnd
  | blockEntry
  | flowEntry
  | key
  | value
  | alias (name : String)
  | anchor (name : String)
  | tag (handle suffix : String)
  | scalar (isPlain : Bool) (text : String)
  deriving DecidableEq

/-- A token and the line that it starts on, counted from zero. -/
structure Token where
  kind : Token.Kind
  line : Nat
  deriving DecidableEq

end TypedForms.Yaml
