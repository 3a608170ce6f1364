/-
# Parts of a type

The type of a node is put together from the types of the nodes in it.  Every part of it comes from one
of the nodes in use: a node adds its own type and, for a composition beside properties, the record and
the union that it is put together from.

* `TypeExpr.Occurs` : the parts of a type;
* `Node.Makes` : what a node adds;
* `Node.occurs_iff` : the parts of the type of a node are what the nodes in use add.
-/
import SchemaCodecs.Proofs.Declaration.Failing
import SchemaCodecs.Proofs.Declaration.Mention

namespace SchemaCodecs

open Schema

/-! ## Parts of types -/

namespace TypeExpr

/-- One type is part of another, or the same. -/
inductive Occurs (inner : TypeExpr) : TypeExpr → Prop where
  /-- The type itself. -/
  | here : Occurs inner inner
  /-- In the items of an array. -/
  | array {items : TypeExpr} (h : Occurs inner items) : Occurs inner (.array items)
  /-- In the type of a property. -/
  | record {fields : List (Field TypeExpr)} {field : Field TypeExpr} (mem : field ∈ fields)
      (h : Occurs inner field.type) : Occurs inner (.record fields)
  /-- In a member of a union. -/
  | union {members : List TypeExpr} {member : TypeExpr} (mem : member ∈ members)
      (h : Occurs inner member) : Occurs inner (.union members)
  /-- In a member of an intersection. -/
  | intersection {members : List TypeExpr} {member : TypeExpr} (mem : member ∈ members)
      (h : Occurs inner member) : Occurs inner (.intersection members)

/-- The identifiers in a type are those that are part of it. -/
theorem mem_identifiers_iff_occurs (name : Text) (t : TypeExpr) :
    name ∈ t.identifiers ↔ (identifier name).Occurs t := by
  constructor
  · intro h
    replace h := mentions_of_mem_identifiers t h
    induction h with
    | identifier => exact .here
    | array _ ih => exact .array ih
    | record mem _ ih => exact .record mem ih
    | union mem _ ih => exact .union mem ih
    | intersection mem _ ih => exact .intersection mem ih
  · intro h
    apply mem_identifiers_of_mentions
    induction h with
    | here => exact .identifier
    | array _ ih => exact .array ih
    | record mem _ ih => exact .record mem ih
    | union mem _ ih => exact .union mem ih
    | intersection mem _ ih => exact .intersection mem ih

variable {inner : TypeExpr}

/-- The parts of an array. -/
theorem occurs_array_iff {items : TypeExpr} :
    inner.Occurs (.array items) ↔ inner = .array items ∨ inner.Occurs items := by
  constructor
  · intro h
    cases h with
    | here => exact Or.inl rfl
    | array h => exact Or.inr h
  · rintro (rfl | h)
    exacts [.here, .array h]

/-- The parts of a record. -/
theorem occurs_record_iff {fields : List (Field TypeExpr)} :
    inner.Occurs (.record fields) ↔
      inner = .record fields ∨ ∃ field ∈ fields, inner.Occurs field.type := by
  constructor
  · intro h
    cases h with
    | here => exact Or.inl rfl
    | record mem h => exact Or.inr ⟨_, mem, h⟩
  · rintro (rfl | ⟨field, mem, h⟩)
    exacts [.here, .record mem h]

/-- The parts of a union. -/
theorem occurs_union_iff {members : List TypeExpr} :
    inner.Occurs (.union members) ↔
      inner = .union members ∨ ∃ member ∈ members, inner.Occurs member := by
  constructor
  · intro h
    cases h with
    | here => exact Or.inl rfl
    | union mem h => exact Or.inr ⟨_, mem, h⟩
  · rintro (rfl | ⟨member, mem, h⟩)
    exacts [.here, .union mem h]

/-- The parts of an intersection. -/
theorem occurs_intersection_iff {members : List TypeExpr} :
    inner.Occurs (.intersection members) ↔
      inner = .intersection members ∨ ∃ member ∈ members, inner.Occurs member := by
  constructor
  · intro h
    cases h with
    | here => exact Or.inl rfl
    | intersection mem h => exact Or.inr ⟨_, mem, h⟩
  · rintro (rfl | ⟨member, mem, h⟩)
    exacts [.here, .intersection mem h]

end TypeExpr

namespace Schema.Node

/-! ## Parts that a node makes -/

/-- The field for a property that has a type. -/
def fieldOf? (required : List Scalar) (entry : Scalar × Node) : Option (Field TypeExpr) :=
  entry.2.resolve.2.toOption.map fun type => ⟨entry.1, type, !required.any (·.same entry.1)⟩

/-- The record of some properties. -/
def fieldsOf (required : List Scalar) (properties : List (Scalar × Node)) :
    List (Field TypeExpr) :=
  properties.filterMap (fieldOf? required)

/-- The types of some members, without those that have none. -/
def typesOf (members : List Node) : List TypeExpr :=
  members.filterMap fun member => member.resolve.2.toOption

/-- A record has the fields for the properties that have a type. -/
theorem resolveProperties_eq (required : List Scalar) (properties : List (Scalar × Node)) :
    (resolveProperties required properties).2 = fieldsOf required properties := by
  induction properties with
  | nil => rfl
  | cons entry rest ih =>
    obtain ⟨name, node⟩ := entry
    rw [resolveProperties, fieldsOf, List.filterMap_cons, fieldOf?, ← fieldsOf, ← ih]
    cases htype : node.resolve.2 <;> simp [htype, Except.toOption]

/-- A composition has the types of the members that have one. -/
theorem resolveMembers_eq (members : List Node) :
    (resolveMembers members).2 = typesOf members := by
  induction members with
  | nil => rfl
  | cons node rest ih =>
    rw [resolveMembers, typesOf, List.filterMap_cons, ← typesOf, ← ih]
    cases htype : node.resolve.2 <;> simp [htype, Except.toOption]

/-- The types that a node adds to those of its parts: its own and, for a composition beside
properties, the record and the union that are put together. -/
inductive Makes : Node → TypeExpr → Prop where
  /-- Its own type. -/
  | type {node : Node} {type : TypeExpr} (h : node.resolve.2 = .ok type) : Makes node type
  /-- The record of the properties. -/
  | record {path : Text} {properties : List (Scalar × Node)} {required : List Scalar}
      {allOf oneOf : Option (List Node)} (own : properties ≠ []) :
      Makes (.object path properties required allOf oneOf)
        (.record (fieldsOf required properties))
  /-- The union of the members. -/
  | union {path : Text} {properties : List (Scalar × Node)} {required : List Scalar}
      {members : List Node} (own : properties ≠ []) :
      Makes (.object path properties required none (some members))
        (.union (typesOf members))

/-- The nodes in use in a node without a type have none either. -/
theorem failure?_of_uses {node part : Node} {cause : Unsupported} (h : node.failure? = some cause)
    (huses : node.Uses part) : part.failure? = some cause := by
  induction huses with
  | here => exact h
  | items _ ih => exact ih h
  | property | member => cases h

/-- A node without a type adds nothing. -/
theorem failure?_of_makes {node : Node} {type : TypeExpr} (h : node.Makes type) :
    node.failure? = none := by
  cases h with
  | type h => exact failure?_of_resolve h
  | record | union => rfl

/-! ## Parts of an object -/

section Object

variable {path : Text} {properties : List (Scalar × Node)} {required : List Scalar}
  {allOf oneOf : Option (List Node)} {inner : TypeExpr}

/-- Something holds of the type of a field if it holds of the type of a property. -/
theorem exists_field_iff (required : List Scalar) {P : TypeExpr → Prop} :
    (∃ field ∈ fieldsOf required properties, P field.type) ↔
      ∃ entry ∈ properties, ∃ type, entry.2.resolve.2 = .ok type ∧ P type := by
  constructor
  · rintro ⟨field, hfield, hP⟩
    obtain ⟨entry, hentry, hof⟩ := List.mem_filterMap.1 hfield
    obtain ⟨type, htype, rfl⟩ := Option.map_eq_some_iff.1 hof
    exact ⟨entry, hentry, type, eq_ok_of_toOption htype, hP⟩
  · rintro ⟨entry, hentry, type, htype, hP⟩
    refine ⟨⟨entry.1, type, !required.any (·.same entry.1)⟩,
      List.mem_filterMap.2 ⟨entry, hentry, ?_⟩, hP⟩
    rw [fieldOf?, htype, Except.toOption, Option.map_some]

/-- Something holds of one of the types of some members if it holds of the type of a member. -/
theorem exists_type_iff {members : List Node} {P : TypeExpr → Prop} :
    (∃ type ∈ typesOf members, P type) ↔
      ∃ member ∈ members, ∃ type, member.resolve.2 = .ok type ∧ P type := by
  constructor
  · rintro ⟨type, htype, hP⟩
    obtain ⟨member, hmember, hof⟩ := List.mem_filterMap.1 htype
    exact ⟨member, hmember, type, eq_ok_of_toOption hof, hP⟩
  · rintro ⟨member, hmember, type, htype, hP⟩
    refine ⟨type, List.mem_filterMap.2 ⟨member, hmember, ?_⟩, hP⟩
    rw [htype, Except.toOption]

/-- The type of an object is put together from the record and the types of the members. -/
theorem type_object : (object path properties required allOf oneOf).resolve.2
    = .ok (composed (fieldsOf required properties) (!properties.isEmpty) (allOf.map typesOf)
        (oneOf.map typesOf)) := by
  cases allOf <;> cases oneOf <;>
    simp [resolve, resolveProperties_eq, resolveMembers_eq, composed]

/-- The types that an object adds to those of its parts. -/
theorem makes_object_iff : (object path properties required allOf oneOf).Makes inner ↔
    (object path properties required allOf oneOf).resolve.2 = .ok inner ∨
      properties ≠ [] ∧ inner = .record (fieldsOf required properties) ∨
      properties ≠ [] ∧ allOf = none ∧
        ∃ members, oneOf = some members ∧ inner = .union (typesOf members) := by
  constructor
  · intro h
    cases h with
    | type h => exact Or.inl h
    | record own => exact Or.inr (Or.inl ⟨own, rfl⟩)
    | union own => exact Or.inr (Or.inr ⟨own, rfl, _, rfl, rfl⟩)
  · rintro (h | ⟨own, rfl⟩ | ⟨own, rfl, members, rfl, rfl⟩)
    exacts [.type h, .record own, .union own]

/-- The parts of the type of an object: what it adds, and the parts of the types of its properties
and members. -/
theorem occurs_object_iff {type : TypeExpr}
    (h : (object path properties required allOf oneOf).resolve.2 = .ok type) :
    inner.Occurs type ↔ (object path properties required allOf oneOf).Makes inner ∨
      (∃ entry ∈ properties, ∃ own, entry.2.resolve.2 = .ok own ∧ inner.Occurs own) ∨
      ∃ member ∈ composedMembers allOf oneOf, ∃ own,
        member.resolve.2 = .ok own ∧ inner.Occurs own := by
  rw [makes_object_iff, h, ← exists_field_iff required, ← exists_type_iff]
  rw [type_object, Except.ok.injEq] at h
  subst h
  rw [Except.ok.injEq, eq_comm]
  -- The record is kept beside a composition if there are properties.
  by_cases own : properties = []
  · subst own
    cases allOf with
    | some all =>
      simp [composed, composedMembers, fieldsOf, TypeExpr.occurs_intersection_iff]
    | none =>
      cases oneOf with
      | some one => simp [composed, composedMembers, fieldsOf, TypeExpr.occurs_union_iff]
      | none => simp [composed, composedMembers, typesOf, TypeExpr.occurs_record_iff]
  · have hown : (!properties.isEmpty) = true := by simpa using own
    cases allOf with
    | some all =>
      simp [composed, composedMembers, hown, own, TypeExpr.occurs_intersection_iff,
        TypeExpr.occurs_record_iff, or_and_right, exists_or, or_left_comm, or_assoc, or_comm]
    | none =>
      cases oneOf with
      | some one =>
        simp [composed, composedMembers, hown, own, TypeExpr.occurs_intersection_iff,
          TypeExpr.occurs_union_iff, TypeExpr.occurs_record_iff, or_left_comm, or_assoc]
      | none =>
        simp [composed, composedMembers, typesOf, own, TypeExpr.occurs_record_iff]

end Object

/-! ## Parts of the type of a node -/

/-- Only a node with nodes in it uses others. -/
theorem uses_leaf_iff {node part : Node} (h : node.hasParts = false) :
    node.Uses part ↔ part = node := by
  constructor
  · intro huses
    cases huses with
    | here => rfl
    | items | property | member => cases h
  · rintro rfl
    exact .here _

/-- The type of an enumeration, or of any text. -/
theorem type_string {path : Text} {enumeration : Option (List Value)} {type : TypeExpr}
    (h : resolveString path enumeration = .ok type) :
    (∃ kind, type = .primitive kind) ∨ ∃ values, type = .keyof values := by
  unfold resolveString at h
  split at h
  · cases h
    exact Or.inl ⟨_, rfl⟩
  · split at h <;> cases h
    exact Or.inr ⟨_, rfl⟩

/-- The type of a node with no nodes in it has no parts. -/
theorem type_leaf {node : Node} {type : TypeExpr} (hleaf : node.hasParts = false)
    (h : node.resolve.2 = .ok type) : (∃ name, type = .identifier name) ∨
      (∃ kind, type = .primitive kind) ∨ ∃ values, type = .keyof values := by
  cases node with
  | reference path target =>
    cases h
    exact Or.inl ⟨_, rfl⟩
  | primitive path kind =>
    cases h
    exact Or.inr (Or.inl ⟨_, rfl⟩)
  | string path enumeration =>
    rw [resolve] at h
    exact Or.inr (type_string h)
  | array path items =>
    cases items with
    | none => cases h
    | some items => cases hleaf
  | object => cases hleaf
  | unclassified | bare => cases h

/-- A node with no nodes in it adds its own type only. -/
theorem makes_leaf_iff {node : Node} {type inner : TypeExpr} (hleaf : node.hasParts = false)
    (h : node.resolve.2 = .ok type) : node.Makes inner ↔ inner.Occurs type := by
  constructor
  · intro hmakes
    cases hmakes with
    | type hown =>
      rw [h] at hown
      cases hown
      exact .here
    | record | union => cases hleaf
  · intro hoccurs
    rcases type_leaf hleaf h with ⟨_, rfl⟩ | ⟨_, rfl⟩ | ⟨_, rfl⟩ <;> cases hoccurs <;>
      exact .type h

/-- What is used below a node without a type adds nothing. -/
theorem exists_type_of_uses {node part : Node} {inner : TypeExpr} (huses : node.Uses part)
    (hmakes : part.Makes inner) : ∃ type, node.resolve.2 = .ok type := by
  apply exists_type_of_failure?
  cases hfailure : node.failure? with
  | none => rfl
  | some cause =>
    have hpart := failure?_of_uses hfailure huses
    rw [failure?_of_makes hmakes] at hpart
    cases hpart

/-- **Parts.**  The parts of the type of a node are what the nodes in use add. -/
theorem occurs_iff (node : Node) {inner type : TypeExpr} (h : node.resolve.2 = .ok type) :
    inner.Occurs type ↔ ∃ part, node.Uses part ∧ part.Makes inner := by
  induction node using parts_induction generalizing type with
  | leaf node hleaf => simp only [uses_leaf_iff hleaf, exists_eq_left, makes_leaf_iff hleaf h]
  | array path items ih =>
    rw [resolve] at h
    obtain ⟨own, hown, rfl⟩ := exists_of_map_eq_ok h
    rw [TypeExpr.occurs_array_iff, ih hown]
    constructor
    · rintro (rfl | ⟨part, huses, hmakes⟩)
      · exact ⟨_, .here _, .type (by rw [resolve]; exact h)⟩
      · exact ⟨part, .items huses, hmakes⟩
    · rintro ⟨part, huses, hmakes⟩
      cases huses with
      | here =>
        cases hmakes with
        | type hmade =>
          rw [resolve, h] at hmade
          exact Or.inl (Except.ok.inj hmade).symm
      | items huses => exact Or.inr ⟨part, huses, hmakes⟩
  | object path properties required allOf oneOf ihproperties ihmembers =>
    rw [occurs_object_iff h]
    constructor
    · rintro (hmakes | ⟨entry, hentry, own, hown, hoccurs⟩ | ⟨member, hmember, own, hown, hoccurs⟩)
      · exact ⟨_, .here _, hmakes⟩
      · obtain ⟨part, huses, hmakes⟩ := (ihproperties entry hentry hown).1 hoccurs
        exact ⟨part, .property hentry huses, hmakes⟩
      · obtain ⟨part, huses, hmakes⟩ := (ihmembers member hmember hown).1 hoccurs
        exact ⟨part, .member hmember huses, hmakes⟩
    · rintro ⟨part, huses, hmakes⟩
      cases huses with
      | here => exact Or.inl hmakes
      | property hentry huses =>
        obtain ⟨own, hown⟩ := exists_type_of_uses huses hmakes
        exact Or.inr (Or.inl ⟨_, hentry, own, hown,
          (ihproperties _ hentry hown).2 ⟨part, huses, hmakes⟩⟩)
      | member hmember huses =>
        obtain ⟨own, hown⟩ := exists_type_of_uses huses hmakes
        exact Or.inr (Or.inr ⟨_, hmember, own, hown,
          (ihmembers _ hmember hown).2 ⟨part, huses, hmakes⟩⟩)

end Schema.Node

end SchemaCodecs
