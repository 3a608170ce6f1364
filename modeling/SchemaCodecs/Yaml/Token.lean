/-
# Tokens of a YAML text

The units of a YAML text.  Some stand for characters of the text; the start and end of a block
collection and the key of a simple mapping entry follow from indentation and colons.
-/
import SchemaCodecs.Yaml.Fault

namespace SchemaCodecs.Yaml

/-- A tag as written: a handle, if it has one, and a suffix. -/
structure TagName where
  /-- The handle with its exclamation marks. -/
  handle : Option Text
  /-- The part after the handle. -/
  suffix : Text
  deriving DecidableEq, Inhabited

/-- A line that begins with a percent sign. -/
inductive Directive where
  /-- The version of the language, by its first number. -/
  | version (major : Nat)
  /-- A handle and what it stands for. -/
  | handle (name meaning : Text)
  /-- Any other line. -/
  | other
  deriving DecidableEq, Inhabited

/-- A unit of a YAML text. -/
inductive Token where
  /-- The end of the text. -/
  | streamEnd
  /-- A directive. -/
  | directive (d : Directive)
  /-- Three hyphens. -/
  | documentStart
  /-- Three dots. -/
  | documentEnd
  /-- The beginning of a sequence by indentation. -/
  | blockSequenceStart
  /-- The beginning of a mapping by indentation. -/
  | blockMappingStart
  /-- The end of a collection by indentation. -/
  | blockEnd
  /-- An opening bracket. -/
  | flowSequenceStart
  /-- A closing bracket. -/
  | flowSequenceEnd
  /-- An opening brace. -/
  | flowMappingStart
  /-- A closing brace. -/
  | flowMappingEnd
  /-- The beginning of a key. -/
  | key
  /-- The colon before a value. -/
  | value
  /-- The hyphen before an entry. -/
  | blockEntry
  /-- A comma. -/
  | flowEntry
  /-- A repetition of an earlier node. -/
  | alias (name : Text)
  /-- A name for the node that follows. -/
  | anchor (name : Text)
  /-- The type of the node that follows. -/
  | tag (name : TagName)
  /-- A scalar with its text; plain if it was written without quotes or indicator. -/
  | scalar (text : Text) (plain : Bool)
  deriving DecidableEq, Inhabited

/-- The tokens of a text as far as they can be read. -/
structure TokenStream where
  /-- The tokens in order. -/
  tokens : List Token
  /-- What is found where the next token is asked for. -/
  ending : ReadFault := .malformed
  deriving Inhabited

end SchemaCodecs.Yaml
