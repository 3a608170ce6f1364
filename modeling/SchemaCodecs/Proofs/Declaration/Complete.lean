/-
# Complete types

The type of a node never lacks a member of a union or intersection: a member without a type is left
out.  So the declarations of component schemas can always be searched for references.
-/
import SchemaCodecs.Proofs.Declaration.Parts

namespace SchemaCodecs

namespace TypeExpr

/-- A type stands in a place, and no member of a union or intersection is missing in it. -/
def IsWhole (t : TypeExpr) : Prop :=
  t.isMissing = false ∧ t.lacksMember = false

/-- Whole types can be members. -/
theorem membersLackMember_eq_false_iff (members : List TypeExpr) :
    membersLackMember members = false ↔ ∀ member ∈ members, member.IsWhole := by
  induction members with
  | nil => simp [membersLackMember]
  | cons first rest ih =>
    rw [membersLackMember, Bool.or_eq_false_iff, Bool.or_eq_false_iff, ih, List.forall_mem_cons]
    rfl

/-- The fields of a record lack no member if their types do not. -/
theorem fieldsLackMember_eq_false_iff (fields : List (Field TypeExpr)) :
    fieldsLackMember fields = false ↔ ∀ field ∈ fields, field.type.lacksMember = false := by
  induction fields with
  | nil => simp [fieldsLackMember]
  | cons first rest ih => rw [fieldsLackMember, Bool.or_eq_false_iff, ih, List.forall_mem_cons]

end TypeExpr

namespace Schema.Node

open TypeExpr

/-- The type of a text schema is whole. -/
theorem isWhole_of_resolveString {path : Text} {enumeration : Option (List Value)}
    {type : TypeExpr} (h : resolveString path enumeration = .ok type) : type.IsWhole := by
  unfold resolveString at h
  split at h
  · cases h
    exact ⟨rfl, rfl⟩
  · split at h
    · cases h
      exact ⟨rfl, rfl⟩
    · cases h

/-- The type of an object is whole if those of its members are. -/
theorem isWhole_composed {fields : List (Field TypeExpr)} (hasOwn : Bool)
    {allOf oneOf : Option (List TypeExpr)} (hfields : fieldsLackMember fields = false)
    (hmembers : ∀ members, allOf.or oneOf = some members → membersLackMember members = false) :
    (composed fields hasOwn allOf oneOf).IsWhole := by
  have hrecord : IsWhole (.record fields) := ⟨rfl, by rwa [lacksMember]⟩
  unfold composed
  split
  · next _ members =>
    have hmembers := (membersLackMember_eq_false_iff members).1 (hmembers members rfl)
    refine ⟨rfl, ?_⟩
    rw [lacksMember, membersLackMember_eq_false_iff]
    split
    · intro member hmember
      rcases List.mem_append.1 hmember with hmember | hmember
      · exact hmembers member hmember
      · rw [List.mem_singleton.1 hmember]
        exact hrecord
    · exact hmembers
  · next members =>
    have hunion : IsWhole (.union members) := ⟨rfl, by rw [lacksMember, hmembers members rfl]⟩
    split
    · refine ⟨rfl, ?_⟩
      rw [lacksMember, membersLackMember_eq_false_iff]
      simp [hrecord, hunion]
    · exact hunion
  · exact hrecord

/-- The types of members are whole if those that they have are. -/
theorem membersLackMember_typesOf {members : List Node}
    (h : ∀ member ∈ members, ∀ type, member.resolve.2 = .ok type → type.IsWhole) :
    membersLackMember (typesOf members) = false := by
  rw [membersLackMember_eq_false_iff]
  intro type htype
  obtain ⟨member, hmember, hof⟩ := List.mem_filterMap.1 htype
  exact h member hmember type (eq_ok_of_toOption hof)

/-- The types of fields lack no members if those of the properties are whole. -/
theorem fieldsLackMember_fieldsOf (required : List Scalar) {properties : List (Scalar × Node)}
    (h : ∀ entry ∈ properties, ∀ type, entry.2.resolve.2 = .ok type → type.IsWhole) :
    fieldsLackMember (fieldsOf required properties) = false := by
  rw [fieldsLackMember_eq_false_iff]
  intro field hfield
  obtain ⟨entry, hentry, hof⟩ := List.mem_filterMap.1 hfield
  obtain ⟨type, htype, rfl⟩ := Option.map_eq_some_iff.1 hof
  exact (h entry hentry type (eq_ok_of_toOption htype)).2

/-- The type of a node is whole. -/
theorem isWhole_of_resolve (node : Node) {type : TypeExpr} (h : node.resolve.2 = .ok type) :
    type.IsWhole := by
  induction node using parts_induction generalizing type with
  | leaf node hleaf =>
    cases node with
    | array path items =>
      cases items with
      | none => cases h
      | some items => cases hleaf
    | object => cases hleaf
    | string path enumeration =>
      rw [resolve] at h
      exact isWhole_of_resolveString h
    | reference | primitive =>
      cases h
      exact ⟨rfl, rfl⟩
    | unclassified | bare => cases h
  | array path items ih =>
    rw [resolve] at h
    obtain ⟨own, hown, rfl⟩ := exists_of_map_eq_ok h
    exact ⟨rfl, by rw [lacksMember, (ih hown).2]⟩
  | object path properties required allOf oneOf ihproperties ihmembers =>
    rw [type_object, Except.ok.injEq] at h
    subst h
    refine isWhole_composed _ (fieldsLackMember_fieldsOf required fun entry hentry type htype =>
      ihproperties entry hentry htype) fun types htypes => ?_
    rw [← Option.map_or] at htypes
    obtain ⟨members, hmembers, rfl⟩ := Option.map_eq_some_iff.1 htypes
    have hcomposed : composedMembers allOf oneOf = members := by rw [composedMembers, hmembers]; rfl
    exact membersLackMember_typesOf fun member hmember type htype =>
      ihmembers member (hcomposed ▸ hmember) htype

end Schema.Node

namespace Declaration

open Schema

/-- The type of what is built from a node is whole. -/
theorem isWhole_of_build {config : Config} {name : Scalar} {node : Option Node} {d : Declaration}
    (h : (build config name node).2 = .ok d) : d.type.IsWhole := by
  unfold build at h
  split at h
  · cases h
  · cases h
  · cases h
  · next node _ _ =>
    obtain ⟨type, htype, rfl⟩ := exists_of_map_eq_ok h
    exact Node.isWhole_of_resolve node htype

/-- So is that of a declaration. -/
theorem isWhole_of_declared? {config : Config} {component : Component} {d : Declaration}
    (h : declared? config component = some d) : d.type.IsWhole := by
  unfold declared? at h
  split at h
  · exact isWhole_of_build (eq_ok_of_toOption h)
  · cases h

end Declaration

end SchemaCodecs
