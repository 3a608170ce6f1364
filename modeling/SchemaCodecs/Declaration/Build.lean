/-
# Building declarations

From classified schemas to declarations.  A node without a supported shape never stops the work:
the property, member or component it belongs to is left out and a notice says so.

An object gives a record of its properties.  With `allOf` it gives the intersection of the members
followed by the record, if there are properties; otherwise, with `oneOf`, the union of the members,
intersected with the record if there are properties.

Schemas may be nested to any depth.  That a run bounds the depth of its calls, and ends where a schema
is nested deeper, is left out.
-/
import SchemaCodecs.Config
import SchemaCodecs.Declaration.TypeExpr
import SchemaCodecs.Reference.Syntax
import SchemaCodecs.Schema.Node
import SchemaCodecs.Traced

namespace SchemaCodecs

open Schema

/-! ## Notices -/

/-- The reason why a node gives no type, and its place. -/
structure Unsupported where
  /-- What is wrong. -/
  reason : Text
  /-- Where in the document. -/
  path : Text
  /-- Whether the reason can be shown. -/
  showable : Bool := true
  deriving DecidableEq, Inhabited

/-- Something that was left out. -/
inductive Notice where
  /-- A property of an object. -/
  | property (name : Scalar) (cause : Unsupported)
  /-- A member of a composition. -/
  | member (cause : Unsupported)
  /-- A component schema without a supported shape. -/
  | component (name : Scalar) (cause : Unsupported)
  /-- A component schema that the configuration leaves out. -/
  | ignored (name : Scalar)
  deriving Inhabited

namespace Notice

/-- Why something was left out, unless that was asked for. -/
def cause? : Notice → Option Unsupported
  | property _ cause => some cause
  | member cause => some cause
  | component _ cause => some cause
  | ignored _ => none

/-- The diagnostic that a notice amounts to. -/
def diagnostic? (notice : Notice) : Option Diagnostic :=
  notice.cause?.map fun cause => ⟨.unsupportedShape, cause.reason, cause.path⟩

/-- Whether a notice gives a reason that cannot be shown. -/
def isHidden (notice : Notice) : Bool :=
  notice.cause?.any fun cause => !cause.showable

/-- A notice as a line of the log. -/
def message : Notice → Text
  | property name cause => "Omitting property " ++ name.expression ++ ": " ++ cause.reason
  | member cause => "Omitting composition member at " ++ cause.path ++ ": " ++ cause.reason
  | component name cause => "Skipping schema " ++ name.expression ++ ": " ++ cause.reason
  | ignored name => "Ignoring schema " ++ name.expression

end Notice

/-! ## Types of nodes -/

namespace Schema.Node

/-- The type of a text schema: an enumeration of texts gives the set of its values. -/
def resolveString (path : Text) : Option (List Value) → Except Unsupported TypeExpr
  | none => .ok (.primitive "string")
  | some values =>
    match values.mapM Value.text? with
    | some texts => .ok (.keyof (distinctTexts texts))
    | none =>
      let list := Value.sequence values
      .error ⟨"enum values must all be strings, got " ++ list.expression, path, list.isShowable⟩

/-- The type of an object from the record of its properties and the types of its members. -/
def composed (fields : List (Field TypeExpr)) (hasOwn : Bool) :
    Option (List TypeExpr) → Option (List TypeExpr) → TypeExpr
  | some members, _ => .intersection (if hasOwn then members ++ [.record fields] else members)
  | none, some members =>
    if hasOwn then .intersection [.record fields, .union members] else .union members
  | none, none => .record fields

mutual

/-- The type of a node, or the reason why it has none; with what was left out below it. -/
def resolve : Node → List Notice × Except Unsupported TypeExpr
  | reference _ target => ([], .ok (.identifier (Reference.declarationName target)))
  | array path none => ([], .error { reason := "array without items", path })
  | array _ (some items) =>
    let (notices, type) := items.resolve
    (notices, type.map .array)
  | object _ properties required allOf oneOf =>
    let (notices, fields) := resolveProperties required properties
    let hasOwn := !properties.isEmpty
    match allOf, oneOf with
    | some members, _ =>
      let (more, types) := resolveMembers members
      (notices ++ more, .ok (composed fields hasOwn (some types) none))
    | none, some members =>
      let (more, types) := resolveMembers members
      (notices ++ more, .ok (composed fields hasOwn none (some types)))
    | none, none => (notices, .ok (composed fields hasOwn none none))
  | primitive _ kind => ([], .ok (.primitive kind))
  | string path enumeration => ([], resolveString path enumeration)
  | unclassified path reason => ([], .error { reason, path })
  | bare path => ([], .error { reason := "unknown node SchemaNode", path })

/-- The properties of a record, without those that have no type. -/
def resolveProperties (required : List Scalar) :
    List (Scalar × Node) → List Notice × List (Field TypeExpr)
  | [] => ([], [])
  | (name, node) :: rest =>
    let (notices, type) := node.resolve
    let (more, fields) := resolveProperties required rest
    match type with
    | .ok type => (notices ++ more, ⟨name, type, !required.any (·.same name)⟩ :: fields)
    | .error cause => (notices ++ .property name cause :: more, fields)

/-- The members of a composition, without those that have no type. -/
def resolveMembers : List Node → List Notice × List TypeExpr
  | [] => ([], [])
  | node :: rest =>
    let (notices, type) := node.resolve
    let (more, types) := resolveMembers rest
    match type with
    | .ok type => (notices ++ more, type :: types)
    | .error cause => (notices ++ .member cause :: more, types)

end

end Schema.Node

/-! ## Declarations -/

namespace Declaration

/-- The declaration of a root-level schema.  A reference or an array cannot be declared. -/
def build (config : Config) (name : Scalar) :
    Option Node → List Notice × Except Unsupported Declaration
  | none => ([], .error { reason := "empty schema", path := "" })
  | some (.reference path _) =>
    ([], .error { reason := "root-level $ref is not supported as a declaration", path })
  | some (.array path _) =>
    ([], .error { reason := "root-level array is not supported as a declaration", path })
  | some node =>
    let (notices, type) := node.resolve
    (notices, type.map fun type => ⟨name, type, config.exportDeclarations⟩)

/-- Notes what was left out; a reason that cannot be shown ends the work. -/
def noteAll : List Notice → Traced Notice Unit
  | [] => pure ()
  | notice :: rest =>
    if notice.isHidden then Traced.fail (.invalid .longInteger)
    else do
      Traced.note [notice]
      noteAll rest

/-- The declarations of all component schemas that are neither ignored nor unsupported, in
order. -/
def buildAll (config : Config) : List Component → Traced Notice (List Declaration)
  | [] => pure []
  | component :: rest => do
    if ← config.ignores component.name then
      Traced.note [.ignored component.name]
      buildAll config rest
    else
      let (notices, result) := build config component.name (some component.body)
      noteAll notices
      match result with
      | .ok declaration => return declaration :: (← buildAll config rest)
      | .error cause =>
        noteAll [.component component.name cause]
        buildAll config rest

end Declaration

end SchemaCodecs
