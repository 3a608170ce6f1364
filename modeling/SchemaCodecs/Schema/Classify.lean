/-
# Classifying schemas

The shape of a schema by its keywords, in order of priority: a reference, then `items`, then an
object or a composition without a type, then a text, then another primitive.  A schema with none of
these is classified as such, with the reason; only a keyword whose value has the wrong type ends
the classification early.

A schema that contains itself is gone into without an end.  Loading lets one pass only behind the key
of a reference, where nothing is followed.
-/
import SchemaCodecs.Distinct
import SchemaCodecs.Fault
import SchemaCodecs.Reference.Syntax
import SchemaCodecs.Schema.Node

namespace SchemaCodecs.Schema

/-! ## Values as texts -/

/-- The display of a value; it has none if an integer in it has too many digits. -/
def shown (v : Value) : Except Fault Text :=
  if v.isShowable then .ok v.display else .error (.invalid .longInteger)

/-- The expression of a value; it has none if an integer in it has too many digits. -/
def shownInside (v : Value) : Except Fault Text :=
  if v.isShowable then .ok v.expression else .error (.invalid .longInteger)

/-! ## Values as collections -/

/-- The items of a value that is gone through: of a text its characters, of bytes their numbers, of
a mapping its keys. -/
def itemsOf : Value → Except Fault (List Value)
  | .sequence items => .ok items
  | .mapping _ entries => .ok (entries.map fun entry => .scalar entry.1)
  | .set members => .ok (members.map .scalar)
  | .pair first second => .ok [first, second]
  | .scalar (.text s) => .ok (s.toList.map fun c => .text (Text.ofList [c]))
  | .scalar (.bytes bs) => .ok (bs.map fun b => .int b.toNat)
  | .scalar _ => .error (.illTyped .notIterable)

/-- Whether a value can be a member of a set: a scalar, or a pair of such values. -/
def isHashable : Value → Bool
  | .scalar (.again _) => false
  | .scalar _ => true
  | .pair first second => isHashable first && isHashable second
  | _ => false

/-- The scalar that a value is. -/
def scalar? : Value → Option Scalar
  | .scalar s => some s
  | _ => none

/-- The scalars among the items of a value, in order of first occurrence; the items have to form a
set. -/
def setOf (v : Value) : Except Fault (List Scalar) := do
  let items ← itemsOf v
  if items.all isHashable then return distinctBy Scalar.same (items.filterMap scalar?)
  else throw (.illTyped .notHashable)

/-- The value under a keyword, unless it is missing or does not count as true. -/
def keyword? (name : Text) (entries : Entries) : Option Value :=
  (Entries.get? name entries).bind Value.truthy?

/-! ## Simple schemas -/

/-- The kinds of primitive other than texts. -/
def primitiveKinds : List Text :=
  ["boolean", "integer", "null", "number"]

/-- Whether a schema has a keyword of composition. -/
def hasComposition (entries : Entries) : Bool :=
  Entries.hasKey "allOf" entries || Entries.hasKey "oneOf" entries

/-- The value of the keyword for the type; the absent value counts as no type. -/
def typeOf? (entries : Entries) : Option Value :=
  match Entries.get? "type" entries with
  | some (.scalar .null) => none
  | found => found

/-- Whether a schema describes an object. -/
def isObject (entries : Entries) : Bool :=
  match typeOf? entries with
  | some v => v.text? == some ("object" : Text)
  | none => hasComposition entries

/-- The node of a value that is no mapping. -/
def foreignNode (path : Text) (v : Value) : Node :=
  .unclassified path ("expected a schema object, got " ++ v.kindName)

/-- Whether a value is a mapping that is met again. -/
def goesRound : Value → Bool
  | .scalar (.again place) => place.isMapping
  | _ => false

/-- The node of a schema that is neither reference nor array nor object. -/
def simpleNode (path : Text) (entries : Entries) : Except Fault Node :=
  match typeOf? entries with
  | none => .ok (.unclassified path "no type, items, $ref or composition keyword")
  | some v =>
    match v.text? with
    | some kind =>
      if kind = "string" then
        match Entries.get? "enum" entries with
        | none | some (.scalar .null) => .ok (.string path none)
        | some enumeration => do return .string path (some (← itemsOf enumeration))
      else if primitiveKinds.contains kind then .ok (.primitive path kind)
      else .ok (.unclassified path ("unsupported type " ++ v.expression))
    | none => do return .unclassified path ("unsupported type " ++ (← shownInside v))

/-! ## All schemas -/

/-- A value found under a key is smaller than the list of entries. -/
theorem sizeOf_get?_lt {key : Text} {entries : Entries} {v : Value}
    (h : Entries.get? key entries = some v) : sizeOf v < sizeOf entries := by
  simp only [Entries.get?, Entries.lookup, Option.map_eq_some_iff] at h
  obtain ⟨entry, hfind, rfl⟩ := h
  have hmem := List.sizeOf_lt_of_mem (List.mem_of_find?_eq_some hfind)
  have : sizeOf entry = 1 + sizeOf entry.1 + sizeOf entry.2 := by cases entry; rfl
  omega

/-- A value found under a keyword is smaller than the list of entries. -/
theorem sizeOf_keyword?_lt {name : Text} {entries : Entries} {v : Value}
    (h : keyword? name entries = some v) : sizeOf v < sizeOf entries := by
  simp only [keyword?, Option.bind_eq_some_iff, Value.truthy?] at h
  obtain ⟨w, hw, hv⟩ := h
  split at hv
  · cases hv; exact sizeOf_get?_lt hw
  · cases hv

mutual

/-- The node of a schema that stands at the given path. -/
def classify (path : Text) : Value → Except Fault Node
  | .mapping _ entries =>
    match Entries.get? Reference.refKey entries with
    | some target => do return .reference path (← shown target)
    | none =>
      match h : Entries.get? "items" entries with
      | some items => do
        have := sizeOf_get?_lt h
        return .array path (some (← classify (path ++ "/items") items))
      | none => if isObject entries then classifyObject path entries else simpleNode path entries
  | v => if goesRound v then .error .endless else .ok (foreignNode path v)
termination_by v => (sizeOf v, 0)

/-- The node of an object: its properties, the set of mandatory names, then the members of both
kinds of composition. -/
def classifyObject (path : Text) (entries : Entries) : Except Fault Node := do
  let properties ← match h : keyword? "properties" entries with
    | some (.mapping _ properties) =>
      have : sizeOf properties < sizeOf entries := by
        have := sizeOf_keyword?_lt h
        simp only [Value.mapping.sizeOf_spec] at this
        omega
      classifyProperties (path ++ "/properties/") properties
    | some _ => .error (.illTyped .lacksPart)
    | none => pure []
  let required ← match keyword? "required" entries with
    | some names => setOf names
    | none => pure []
  let allOf ← classifyMembers path "allOf" entries
  let oneOf ← classifyMembers path "oneOf" entries
  return .object path properties required allOf oneOf
termination_by (sizeOf entries, 3)

/-- The nodes of the properties of an object, each at its name below the given path. -/
def classifyProperties (parent : Text) :
    List (Scalar × Value) → Except Fault (List (Scalar × Node))
  | [] => .ok []
  | (name, schema) :: rest => do
    let node ← classify (parent ++ (← shown (.scalar name))) schema
    return (name, node) :: (← classifyProperties parent rest)
termination_by entries => (sizeOf entries, 0)

/-- The members of a composition keyword; none if the keyword is missing. -/
def classifyMembers (path name : Text) (entries : Entries) :
    Except Fault (Option (List Node)) :=
  match h : Entries.get? name entries with
  | none => .ok none
  | some (.sequence members) => do
    have : sizeOf members < sizeOf entries := by
      have := sizeOf_get?_lt h
      simp only [Value.sequence.sizeOf_spec] at this
      omega
    return some (← classifyAll (path ++ "/" ++ name ++ "/") 0 members)
  | some v =>
    if v.isTruthy then do
      return some ((← itemsOf v).mapIdx fun i member =>
        foreignNode (path ++ "/" ++ name ++ "/" ++ Text.numeral i) member)
    else .ok (some [])
termination_by (sizeOf entries, 2)

/-- The nodes of a list of schemas, each at its index below the given path. -/
def classifyAll (parent : Text) (index : Nat) : List Value → Except Fault (List Node)
  | [] => .ok []
  | schema :: rest => do
    let node ← classify (parent ++ Text.numeral index) schema
    return node :: (← classifyAll parent (index + 1) rest)
termination_by schemas => (sizeOf schemas, 0)

end

/-! ## Documents -/

/-- The table under a key of a mapping; empty if it is missing or does not count as true. -/
def tableAt (key : Text) (entries : Entries) : Except Fault Entries :=
  match keyword? key entries with
  | none => .ok []
  | some (.mapping _ table) => .ok table
  | some _ => .error (.illTyped .lacksPart)

/-- The component schemas of a document, in order. -/
def componentSchemas : Value → Except Fault Entries
  | .mapping _ entries => do tableAt "schemas" (← tableAt "components" entries)
  | _ => .error (.illTyped .lacksPart)

/-- The classified component schemas of a document, in order. -/
def components (document : Value) : Except Fault (List Component) := do
  let nodes ← classifyProperties (Reference.schemasPath ++ "/") (← componentSchemas document)
  return nodes.map fun (name, body) => { name, body }

end SchemaCodecs.Schema
