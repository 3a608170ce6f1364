/-
# Nodes without a type

A node has no type when the items of arrays lead from it to a node that has none: one without a
supported shape, an enumeration with a value that is no text, or an array without items.  What is left
out of a type are the properties and members without one, each with the reason of the node that its
items lead to.

* `Node.failure?` : why a node has no type;
* `Node.entries` : the properties and members that a type is made from, in the order they are met;
* `Node.resolve_eq_error_iff` : the nodes without a type;
* `Node.notices_resolve` : what is left out.
-/
import SchemaCodecs.Proofs.Declaration.Omission

namespace SchemaCodecs.Schema

/-! ## Failing nodes -/

namespace Node

/-- The node that the items of arrays lead to. -/
def innermost : Node → Node
  | array _ (some items) => items.innermost
  | node => node

/-- Why a node that is no array of items has no type. -/
def ownFailure? : Node → Option Unsupported
  | array path none => some { reason := "array without items", path }
  | string path (some values) =>
    if values.all fun v => v.text?.isSome then none
    else
      let list := Value.sequence values
      some ⟨"enum values must all be strings, got " ++ list.expression, path, list.isShowable⟩
  | unclassified path reason => some { reason, path }
  | bare path => some { reason := "unknown node SchemaNode", path }
  | _ => none

/-- Why a node has no type, if it has none. -/
def failure? (node : Node) : Option Unsupported :=
  node.innermost.ownFailure?

end Node

/-! ## Entries -/

/-- A part of an object that is left out if it has no type. -/
inductive Entry where
  /-- A property. -/
  | property (name : Scalar) (node : Node)
  /-- A member of the composition. -/
  | member (node : Node)

namespace Entry

/-- The node of an entry. -/
def node : Entry → Node
  | property _ node => node
  | member node => node

/-- The notice that an entry without a type is left out. -/
def notice? : Entry → Option Notice
  | property name node => node.failure?.map (Notice.property name)
  | member node => node.failure?.map Notice.member

end Entry

namespace Node

mutual

/-- The properties and members that the type of a node is made from: those of an object and those
inside of them, the own properties first; an entry comes after what is inside of it. -/
def entries : Node → List Entry
  | array _ (some items) => items.entries
  | object _ properties _ allOf oneOf =>
    propertyEntries properties ++
      match allOf, oneOf with
      | some members, _ => memberEntries members
      | none, some members => memberEntries members
      | none, none => []
  | _ => []

/-- Some properties with the entries inside of them. -/
def propertyEntries : List (Scalar × Node) → List Entry
  | [] => []
  | (name, node) :: rest => node.entries ++ .property name node :: propertyEntries rest

/-- Some members with the entries inside of them. -/
def memberEntries : List Node → List Entry
  | [] => []
  | node :: rest => node.entries ++ .member node :: memberEntries rest

end

/-- The entries of an object: those of its properties and those of the members it is made from. -/
theorem entries_object (path : Text) (properties : List (Scalar × Node)) (required : List Scalar)
    (allOf oneOf : Option (List Node)) :
    (object path properties required allOf oneOf).entries
      = propertyEntries properties ++ memberEntries (composedMembers allOf oneOf) := by
  cases allOf <;> cases oneOf <;> simp [entries, composedMembers, memberEntries]

@[simp] theorem entries_of_leaf : ∀ {node : Node}, node.hasParts = false → node.entries = []
  | .reference _ _, _ | .array _ none, _ | .primitive _ _, _ | .string _ _, _
  | .unclassified _ _, _ | .bare _, _ => rfl

@[simp] theorem notices_of_leaf : ∀ {node : Node}, node.hasParts = false → node.resolve.1 = []
  | .reference _ _, _ | .array _ none, _ | .primitive _ _, _ | .string _ _, _
  | .unclassified _ _, _ | .bare _, _ => rfl

/-! ## The nodes without a type -/

/-- A list of values can be read as texts unless one of them is none. -/
theorem isSome_mapM_text? (values : List Value) :
    (values.mapM Value.text?).isSome = values.all fun v => v.text?.isSome := by
  induction values with
  | nil => rfl
  | cons v rest ih =>
    rw [List.mapM_cons, List.all_cons, ← ih]
    cases v.text? with
    | none => rfl
    | some s => cases rest.mapM Value.text? <;> rfl

/-- An enumeration has no type if one of its values is no text. -/
theorem resolveString_eq_error_iff (path : Text) (enumeration : Option (List Value))
    (cause : Unsupported) :
    resolveString path enumeration = .error cause
      ↔ (string path enumeration).failure? = some cause := by
  cases enumeration with
  | none => simp [resolveString, failure?, innermost, ownFailure?]
  | some values =>
    simp only [failure?, innermost, ownFailure?, ← isSome_mapM_text?, resolveString]
    cases values.mapM Value.text? <;> simp

/-- **Nodes without a type.**  A node has no type just when the items of arrays lead to one that has
none, and for its reason. -/
theorem resolve_eq_error_iff (node : Node) (cause : Unsupported) :
    node.resolve.2 = .error cause ↔ node.failure? = some cause := by
  induction node using parts_induction with
  | leaf node hleaf =>
    cases node with
    | array path items =>
      cases items with
      | none => simp [resolve, failure?, innermost, ownFailure?]
      | some items => cases hleaf
    | object => cases hleaf
    | string path enumeration =>
      rw [resolve]
      exact resolveString_eq_error_iff path enumeration cause
    | reference | primitive | unclassified | bare =>
      simp [resolve, failure?, innermost, ownFailure?]
  | array path items ih =>
    rw [failure?, innermost, ← failure?, ← ih, resolve]
    cases hitems : items.resolve.2 <;> simp [hitems, Except.map]
  | object path properties required allOf oneOf _ _ =>
    obtain ⟨type, htype⟩ := exists_resolve_object path properties required allOf oneOf
    rw [htype]
    simp [failure?, innermost, ownFailure?]

/-- Any other node has a type. -/
theorem exists_type_of_failure? {node : Node} (h : node.failure? = none) :
    ∃ type, node.resolve.2 = .ok type := by
  cases htype : node.resolve.2 with
  | ok type => exact ⟨type, rfl⟩
  | error cause =>
    rw [resolve_eq_error_iff, h] at htype
    cases htype

/-- A node that has a type does not fail. -/
theorem failure?_of_resolve {node : Node} {type : TypeExpr} (h : node.resolve.2 = .ok type) :
    node.failure? = none := by
  cases hfailure : node.failure? with
  | none => rfl
  | some cause =>
    rw [← resolve_eq_error_iff, h] at hfailure
    cases hfailure

/-- There are no entries in a node without a type. -/
theorem entries_of_failure? {node : Node} {cause : Unsupported} (h : node.failure? = some cause) :
    node.entries = [] := by
  induction node using parts_induction with
  | leaf node hleaf => exact entries_of_leaf hleaf
  | array path items ih =>
    rw [entries]
    exact ih h
  | object => cases h

/-! ## What is left out -/

/-- What is left out of a record: the properties without a type, and what is left out of the others. -/
theorem notices_resolveProperties (required : List Scalar) {properties : List (Scalar × Node)}
    (h : ∀ entry ∈ properties, entry.2.resolve.1 = entry.2.entries.filterMap Entry.notice?) :
    (resolveProperties required properties).1
      = (propertyEntries properties).filterMap Entry.notice? := by
  induction properties with
  | nil => rfl
  | cons entry rest ih =>
    obtain ⟨name, node⟩ := entry
    obtain ⟨hnode, hrest⟩ := List.forall_mem_cons.1 h
    rw [resolveProperties, propertyEntries, List.filterMap_append, ← hnode, List.filterMap_cons,
      Entry.notice?, ← ih hrest]
    cases htype : node.resolve.2 with
    | ok type => simp [htype, failure?_of_resolve htype]
    | error cause => simp [htype, (resolve_eq_error_iff node cause).1 htype]

/-- What is left out of a composition: the members without a type, and what is left out of the
others. -/
theorem notices_resolveMembers {members : List Node}
    (h : ∀ member ∈ members, member.resolve.1 = member.entries.filterMap Entry.notice?) :
    (resolveMembers members).1 = (memberEntries members).filterMap Entry.notice? := by
  induction members with
  | nil => rfl
  | cons node rest ih =>
    obtain ⟨hnode, hrest⟩ := List.forall_mem_cons.1 h
    rw [resolveMembers, memberEntries, List.filterMap_append, ← hnode, List.filterMap_cons,
      Entry.notice?, ← ih hrest]
    cases htype : node.resolve.2 with
    | ok type => simp [htype, failure?_of_resolve htype]
    | error cause => simp [htype, (resolve_eq_error_iff node cause).1 htype]

/-- **What is left out** of the type of a node are the properties and members without a type, in the
order in which they are met, each for its own reason. -/
theorem notices_resolve (node : Node) :
    node.resolve.1 = node.entries.filterMap Entry.notice? := by
  induction node using parts_induction with
  | leaf node hleaf => rw [entries_of_leaf hleaf, notices_of_leaf hleaf, List.filterMap_nil]
  | array path items ih =>
    rw [resolve, entries]
    exact ih
  | object path properties required allOf oneOf ihproperties ihmembers =>
    rw [resolve_object, entries_object, List.filterMap_append,
      notices_resolveProperties required ihproperties, notices_resolveMembers ihmembers]

end Node

end SchemaCodecs.Schema
