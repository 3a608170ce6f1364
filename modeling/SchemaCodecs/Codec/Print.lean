/-
# Printing codecs

The codec of a type as an expression over the combinators of the module `t`.  A record is split
into the properties that must be there and those that may be left out.  Unions and intersections
need two members: a single member stands for itself, and none at all gives the codec that accepts
nothing or everything.
-/
import SchemaCodecs.Codec.Key
import SchemaCodecs.Config
import SchemaCodecs.Declaration.TypeExpr

namespace SchemaCodecs.Codec

open Text

/-! ## Settings -/

/-- What the codec of a type depends on besides the type. -/
structure Style where
  /-- The codec of integers. -/
  integerCodec : Value
  /-- How identifiers that name no declaration are printed. -/
  danglingPolicy : DanglingPolicy
  /-- The declared names; without them every identifier counts as declared. -/
  known : Option (List Text)
  deriving Inhabited

/-- The style of a configuration, given the declared names. -/
def Style.ofConfig (config : Config) (known : Option (List Text)) : Style :=
  { integerCodec := config.integerCodec, danglingPolicy := config.danglingPolicy, known }

/-- The codec of an identifier. -/
def Style.identifier (style : Style) (name : Text) : Text :=
  let declared := match style.known with
    | none => true
    | some names => names.contains name
  if !declared && style.danglingPolicy == .unknown then "t.unknown" else name

/-- The codecs of the primitive kinds other than integers. -/
def primitiveCodecs : List (Text × Text) :=
  [("string", "t.string"), ("number", "t.number"), ("boolean", "t.boolean"), ("null", "t.null")]

/-- The codec of a primitive kind. -/
def Style.primitive (style : Style) (kind : Text) : Except Fault Text :=
  if kind == "integer" then .ok style.integerCodec.display
  else
    match primitiveCodecs.lookup kind with
    | some codec => .ok codec
    | none => .error (.illTyped .unknownPrimitive)

/-! ## Layout -/

/-- The white space in front of a line at a level of nesting. -/
def indentation (level : Nat) : Text :=
  Text.ofList (List.replicate (2 * level) (.char ' '))

/-- An object literal with one entry on each line. -/
def objectLiteral (level : Nat) (entries : List Text) : Text :=
  if entries.isEmpty then "\x7b\x7d"
  else
    let lines := entries.map fun entry => indentation (level + 1) ++ entry
    "\x7b\n" ++ joinWith ",\n" lines ++ "\n" ++ indentation level ++ "\x7d"

/-- The key of a property, whose name has to be a text. -/
def fieldKey : Scalar → Except Fault Text
  | .text name => .ok (propertyKey name)
  | _ => .error (.illTyped .notText)

/-- The codec of a record from the entries of its two parts. -/
def recordCodec (level : Nat) (required optional : List Text) : Text :=
  let type := "t.type(" ++ objectLiteral level required ++ ")"
  let partialType := "t.partial(" ++ objectLiteral level optional ++ ")"
  if optional.isEmpty then type
  else if required.isEmpty then partialType
  else "t.intersection([" ++ type ++ ", " ++ partialType ++ "])"

/-- The codec of a set of texts. -/
def keyofCodec (level : Nat) (values : List Text) : Text :=
  let entries := values.map fun value => propertyKey value ++ ": null"
  "t.keyof(" ++ objectLiteral level entries ++ ")"

/-! ## Codecs of types -/

/-- Whether the codec of a type is the codec of integers as it was given. -/
def isIntegerCodec : TypeExpr → Bool
  | .primitive kind => kind == "integer"
  | .union [member] => isIntegerCodec member
  | .intersection [member] => isIntegerCodec member
  | _ => false

/-- The codecs of two or more members, joined; the codec of integers has to be a text for that. -/
def Style.join (style : Style) (combinator : Text) (members : List TypeExpr)
    (codecs : List Text) : Except Fault Text :=
  if members.any isIntegerCodec && style.integerCodec.text?.isNone then
    .error (.illTyped .notText)
  else .ok (combinator ++ "([" ++ joinWith ", " codecs ++ "])")

mutual

/-- The codec of a type at a level of nesting. -/
def print (style : Style) (level : Nat) : TypeExpr → Except Fault Text
  | .missing => .error (.illTyped (.unprintable "NoneType"))
  | .bare => .error (.illTyped (.unprintable "TypeExpr"))
  | .primitive kind => style.primitive kind
  | .identifier name => .ok (style.identifier name)
  | .array items => do return "t.array(" ++ (← print style level items) ++ ")"
  | .record fields => do
    let required ← printFields style level false fields
    let optional ← printFields style level true fields
    return recordCodec level required optional
  | .union [] => .ok "t.never"
  | .union [member] => print style level member
  | .union members => do style.join "t.union" members (← printMembers style level members)
  | .intersection [] => .ok "t.unknown"
  | .intersection [member] => print style level member
  | .intersection members => do
    style.join "t.intersection" members (← printMembers style level members)
  | .keyof values => .ok (keyofCodec level values)

/-- The entries of the properties that must be there, or of those that may be left out. -/
def printFields (style : Style) (level : Nat) (optional : Bool) :
    List (Field TypeExpr) → Except Fault (List Text)
  | [] => .ok []
  | field :: rest =>
    if field.optional == optional then do
      let key ← fieldKey field.name
      let codec ← print style (level + 1) field.type
      return (key ++ ": " ++ codec) :: (← printFields style level optional rest)
    else printFields style level optional rest

/-- The codecs of a list of types. -/
def printMembers (style : Style) (level : Nat) : List TypeExpr → Except Fault (List Text)
  | [] => .ok []
  | member :: rest => do
    let codec ← print style level member
    return codec :: (← printMembers style level rest)

end

/-- The codec of a type as a value: the codec of integers as it was given, else the printed
text. -/
def codecValue (style : Style) (level : Nat) (type : TypeExpr) : Except Fault Value := do
  let codec ← print style level type
  return if isIntegerCodec type then style.integerCodec else .text codec

end SchemaCodecs.Codec
