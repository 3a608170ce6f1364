/-
# Schema nodes

What a schema is, once its keywords have been sorted out: a reference, an array, an object with
optional composition, a text, another primitive, or something that has none of these shapes.  Every
node knows its place in the document.
-/
import SchemaCodecs.Value.Display

namespace SchemaCodecs

namespace Schema

/-- A classified schema. -/
inductive Node where
  /-- A reference; what stands beside it in the schema does not matter. -/
  | reference (path target : Text)
  /-- An array with the schema of its items. -/
  | array (path : Text) (items : Option Node)
  /-- An object: its properties in order, the names of the mandatory ones, and the members of the
  two kinds of composition. -/
  | object (path : Text) (properties : List (Scalar × Node)) (required : List Scalar)
      (allOf oneOf : Option (List Node))
  /-- A boolean, an integer, the absent value or a number, by the name of its kind. -/
  | primitive (path kind : Text)
  /-- A text, restricted to an enumeration if there is one. -/
  | string (path : Text) (enumeration : Option (List Value))
  /-- A schema without a supported shape, with the reason. -/
  | unclassified (path reason : Text)
  /-- A place in a document about which nothing else is known. -/
  | bare (path : Text)
  deriving Inhabited

namespace Node

/-- The place of a node in its document. -/
def path : Node → Text
  | reference path _ => path
  | array path _ => path
  | object path _ _ _ _ => path
  | primitive path _ => path
  | string path _ => path
  | unclassified path _ => path
  | bare path => path

end Node

/-- An entry of the table of component schemas. -/
structure Component where
  /-- The key of the entry. -/
  name : Scalar
  /-- The classified schema. -/
  body : Node
  deriving Inhabited

end Schema

end SchemaCodecs
