/-
# Faults of YAML texts

Why a YAML text has no value.  A text that is not well formed is one thing; a character, number or
scalar in it that stands for nothing is another, with a fault of its own.
-/
import SchemaCodecs.Fault

namespace SchemaCodecs.Yaml

/-- Why a text has no value. -/
inductive ReadFault where
  /-- The text is not well formed, or a node has a type it cannot be read in. -/
  | malformed
  /-- Something that is written in the text stands for nothing. -/
  | content (fault : Fault)
  deriving Inhabited

/-- A step of reading. -/
abbrev Reading (α : Type) := Except ReadFault α

/-- What has to be there for a text to be well formed. -/
def required {α : Type} : Option α → Reading α
  | some a => .ok a
  | none => .error .malformed

end SchemaCodecs.Yaml
