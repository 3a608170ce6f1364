/-
# Type expressions

The small algebra in which every supported schema is expressed.  References to other declarations
are identifiers; their first occurrences, in the order in which the expression is read, are the
names a declaration depends on.
-/
import SchemaCodecs.Distinct
import SchemaCodecs.Fault

namespace SchemaCodecs

/-! ## Expressions -/

/-- A property of a record with the type `α`. -/
structure Field (α : Type) where
  /-- The name of the property. -/
  name : Scalar
  /-- Its type. -/
  type : α
  /-- Whether the property may be left out. -/
  optional : Bool
  deriving Inhabited

/-- A type. -/
inductive TypeExpr where
  /-- No type where one should stand. -/
  | missing
  /-- A type about which nothing is known. -/
  | bare
  /-- A primitive type by the name of its kind. -/
  | primitive (kind : Text)
  /-- Arrays of one type of item. -/
  | array (items : TypeExpr)
  /-- The type declared under a name. -/
  | identifier (name : Text)
  /-- Objects with the given properties, in order. -/
  | record (fields : List (Field TypeExpr))
  /-- Values of at least one of the types. -/
  | union (members : List TypeExpr)
  /-- Values of all of the types. -/
  | intersection (members : List TypeExpr)
  /-- One of the given texts. -/
  | keyof (values : List Text)
  deriving Inhabited

namespace TypeExpr

/-! ## Identifiers -/

mutual

/-- The identifiers in a type, as often as they occur, from left to right. -/
def identifiers : TypeExpr → List Text
  | identifier name => [name]
  | array items => items.identifiers
  | record fields => fieldIdentifiers fields
  | union members => memberIdentifiers members
  | intersection members => memberIdentifiers members
  | _ => []

/-- The identifiers in the types of a list of properties. -/
def fieldIdentifiers : List (Field TypeExpr) → List Text
  | [] => []
  | field :: rest => field.type.identifiers ++ fieldIdentifiers rest

/-- The identifiers in a list of types. -/
def memberIdentifiers : List TypeExpr → List Text
  | [] => []
  | member :: rest => member.identifiers ++ memberIdentifiers rest

end

/-! ## Missing members -/

/-- Whether no type stands in a place. -/
def isMissing : TypeExpr → Bool
  | missing => true
  | _ => false

mutual

/-- Whether a member of a union or intersection somewhere in a type is missing. -/
def lacksMember : TypeExpr → Bool
  | array items => items.lacksMember
  | record fields => fieldsLackMember fields
  | union members => membersLackMember members
  | intersection members => membersLackMember members
  | _ => false

/-- Whether a member is missing in the type of some property. -/
def fieldsLackMember : List (Field TypeExpr) → Bool
  | [] => false
  | field :: rest => field.type.lacksMember || fieldsLackMember rest

/-- Whether one of some members is missing or lacks a member itself. -/
def membersLackMember : List TypeExpr → Bool
  | [] => false
  | member :: rest => member.isMissing || member.lacksMember || membersLackMember rest

end

end TypeExpr

/-! ## Declarations -/

/-- A named type; `exported` counts as a truth value. -/
structure Declaration where
  /-- The name. -/
  name : Scalar
  /-- The type. -/
  type : TypeExpr
  /-- Whether the declaration is exported. -/
  exported : Value
  deriving Inhabited

namespace Declaration

/-- The names a declaration refers to, in order of first occurrence. -/
def references (d : Declaration) : List Text :=
  distinctTexts d.type.identifiers

/-- The names a declaration refers to; a missing member of a union or intersection cannot be
searched. -/
def references? (d : Declaration) : Except Fault (List Text) :=
  if d.type.lacksMember then .error (.illTyped .lacksPart) else .ok d.references

end Declaration

end SchemaCodecs
