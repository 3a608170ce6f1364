/-
# Places of schemas

The schemas inside a schema, each at its place: the items of an array, the properties of an object
and the members of a composition.  Whether a schema can be classified depends on the schemas inside
it one by one: at each place the keywords that count there have values that fit.  What is classified
as a reference stands in the schema as one, at the same place.

* `StandsAt`, `NodeAt` : a schema inside a schema, a node inside a node;
* `exists_classify_iff` : the schemas that can be classified;
* `comesFrom_of_nodeAt` : the schema that a node comes from, and its path;
* `exists_ref_of_nodeAt` : where the references among the nodes come from.
-/
import SchemaCodecs.Proofs.Schema.Classification

namespace SchemaCodecs.Schema

/-! ## Places -/

/-- A step from a schema to one inside it. -/
inductive Step where
  /-- To the items of an array. -/
  | items
  /-- To a property of an object. -/
  | property (name : Scalar)
  /-- To a member of the composition under a keyword. -/
  | member (keyword : Text) (index : Nat)

/-- The keywords of composition. -/
def compositions : List Text :=
  ["allOf", "oneOf"]

/-- A schema stands at a place inside another one. -/
inductive StandsAt : List Step → Value → Value → Prop where
  /-- Every schema stands in itself. -/
  | here (schema : Value) : StandsAt [] schema schema
  /-- In the items of an array. -/
  | items {place : List Step} {schema items : Value} {label : Option Nat} {entries : Entries}
      (plain : Entries.get? Reference.refKey entries = none)
      (found : Entries.get? "items" entries = some items) (inside : StandsAt place schema items) :
      StandsAt (.items :: place) schema (.mapping label entries)
  /-- In a property of an object. -/
  | property {place : List Step} {schema property : Value} {label own : Option Nat}
      {entries properties : Entries} {name : Scalar} (object : IsObjectSchema entries)
      (found : keyword? "properties" entries = some (.mapping own properties))
      (mem : (name, property) ∈ properties) (inside : StandsAt place schema property) :
      StandsAt (.property name :: place) schema (.mapping label entries)
  /-- In a member of a composition. -/
  | member {place : List Step} {schema member : Value} {members : List Value} {label : Option Nat}
      {entries : Entries} {keyword : Text} {index : Nat} (object : IsObjectSchema entries)
      (known : keyword ∈ compositions)
      (found : Entries.get? keyword entries = some (.sequence members))
      (mem : members[index]? = some member) (inside : StandsAt place schema member) :
      StandsAt (.member keyword index :: place) schema (.mapping label entries)

/-- A node stands at a place inside another one. -/
inductive NodeAt : List Step → Node → Node → Prop where
  /-- Every node stands in itself. -/
  | here (node : Node) : NodeAt [] node node
  /-- In the items of an array. -/
  | items {place : List Step} {node items : Node} {path : Text} (inside : NodeAt place node items) :
      NodeAt (.items :: place) node (.array path (some items))
  /-- In a property of an object. -/
  | property {place : List Step} {node property : Node} {path : Text} {name : Scalar}
      {properties : List (Scalar × Node)} {required : List Scalar}
      {allOf oneOf : Option (List Node)} (mem : (name, property) ∈ properties)
      (inside : NodeAt place node property) :
      NodeAt (.property name :: place) node (.object path properties required allOf oneOf)
  /-- In a member of the first kind of composition. -/
  | allOf {place : List Step} {node member : Node} {path : Text} {index : Nat}
      {properties : List (Scalar × Node)} {required : List Scalar} {members : List Node}
      {oneOf : Option (List Node)} (mem : members[index]? = some member)
      (inside : NodeAt place node member) :
      NodeAt (.member "allOf" index :: place) node
        (.object path properties required (some members) oneOf)
  /-- In a member of the second kind of composition. -/
  | oneOf {place : List Step} {node member : Node} {path : Text} {index : Nat}
      {properties : List (Scalar × Node)} {required : List Scalar} {members : List Node}
      {allOf : Option (List Node)} (mem : members[index]? = some member)
      (inside : NodeAt place node member) :
      NodeAt (.member "oneOf" index :: place) node
        (.object path properties required allOf (some members))

/-! ## Keywords -/

/-- Values that a schema of an object can have under its keywords: properties with names that can be
shown, a collection of mandatory names that can form a set, and collections of members. -/
structure ObjectFits (entries : Entries) : Prop where
  /-- The properties are a mapping. -/
  properties : ∀ v, keyword? "properties" entries = some v →
    ∃ label properties, v = .mapping label properties ∧
      ∀ entry ∈ properties, entry.1.isShowable = true
  /-- The mandatory names can form a set. -/
  required : ∀ v, keyword? "required" entries = some v →
    ∃ items, itemsOf v = .ok items ∧ items.all isHashable = true
  /-- The members can be gone through. -/
  members : ∀ keyword ∈ compositions, ∀ v, keyword? keyword entries = some v →
    ∃ items, itemsOf v = .ok items

/-- Values that any other schema can have: an enumeration of texts that can be gone through, and a
type that can be shown. -/
structure SimpleFits (entries : Entries) : Prop where
  /-- The enumeration can be gone through. -/
  enumeration : typeOf? entries = some (.text "string") → ∀ v, Entries.get? "enum" entries = some v →
    v ≠ .null → ∃ items, itemsOf v = .ok items
  /-- The type can be shown. -/
  shown : ∀ v, typeOf? entries = some v → v.text? = none → v.isShowable = true

/-- The keywords that count in a schema have values that fit. -/
structure KeywordsFit (entries : Entries) : Prop where
  /-- A reference can be shown. -/
  ref : ∀ v, Entries.get? Reference.refKey entries = some v → v.isShowable = true
  /-- The keywords of an object fit. -/
  object : IsObjectSchema entries → ObjectFits entries
  /-- The keywords of any other schema fit. -/
  simple : Entries.get? Reference.refKey entries = none → Entries.get? "items" entries = none →
    isObject entries = false → SimpleFits entries

/-- At each place in a schema the keywords that count have values that fit, and no mapping is met
again. -/
structure PlacesFit (v : Value) : Prop where
  /-- The keywords fit. -/
  keywords : ∀ place label entries, StandsAt place (.mapping label entries) v → KeywordsFit entries
  /-- What stands there comes to an end. -/
  ends : ∀ place schema, StandsAt place schema v → goesRound schema = false

/-- A place inside a schema that stands at a place itself. -/
theorem StandsAt.trans {place others : List Step} {schema inner outer : Value}
    (h : StandsAt place inner outer) (hinner : StandsAt others schema inner) :
    StandsAt (place ++ others) schema outer := by
  induction h with
  | here => exact hinner
  | items plain found _ ih => exact .items plain found (ih hinner)
  | property object found mem _ ih => exact .property object found mem (ih hinner)
  | member object known found mem _ ih => exact .member object known found mem (ih hinner)

theorem PlacesFit.inside {place : List Step} {schema outer : Value} (h : PlacesFit outer)
    (hplace : StandsAt place schema outer) : PlacesFit schema where
  keywords _ label entries inner := h.keywords _ label entries (hplace.trans inner)
  ends _ inner hinner := h.ends _ inner (hplace.trans hinner)

/-! ## Shapes -/

/-- What a schema is classified as, by its shape. -/
inductive Shape (path : Text) : Value → Node → Prop where
  /-- A value that is no mapping. -/
  | foreign {v : Value} (foreign : ∀ label entries, v ≠ .mapping label entries)
      (ends : goesRound v = false) :
      Shape path v (foreignNode path v)
  /-- A reference. -/
  | reference {label : Option Nat} {entries : Entries} {ref : Value} {target : Text}
      (found : Entries.get? Reference.refKey entries = some ref) (text : shown ref = .ok target) :
      Shape path (.mapping label entries) (.reference path target)
  /-- An array. -/
  | array {label : Option Nat} {entries : Entries} {items : Value} {node : Node}
      (plain : Entries.get? Reference.refKey entries = none)
      (found : Entries.get? "items" entries = some items)
      (classified : classify (path ++ "/items") items = .ok node) :
      Shape path (.mapping label entries) (.array path (some node))
  /-- An object. -/
  | object {label : Option Nat} {entries : Entries} {properties : List (Scalar × Node)}
      {required : List Scalar} {allOf oneOf : Option (List Node)} (object : IsObjectSchema entries)
      (properties_eq : propertyNodes path entries = .ok properties)
      (required_eq : requiredNames entries = .ok required)
      (allOf_eq : classifyMembers path "allOf" entries = .ok allOf)
      (oneOf_eq : classifyMembers path "oneOf" entries = .ok oneOf) :
      Shape path (.mapping label entries) (.object path properties required allOf oneOf)
  /-- A schema of another type. -/
  | simple {label : Option Nat} {entries : Entries} {node : Node}
      (plain : Entries.get? Reference.refKey entries = none)
      (single : Entries.get? "items" entries = none) (simple : isObject entries = false)
      (simple_eq : simpleNode path entries = .ok node) : Shape path (.mapping label entries) node

/-- A schema is classified by its shape. -/
theorem classify_eq_ok_iff {path : Text} {v : Value} {node : Node} :
    classify path v = .ok node ↔ Shape path v node := by
  constructor
  · intro h
    by_cases hforeign : ∀ label entries, v ≠ .mapping label entries
    · rw [classify_of_not_mapping path hforeign] at h
      split at h
      · cases h
      · next hends =>
        cases h
        exact .foreign hforeign (Bool.eq_false_iff.2 hends)
    push Not at hforeign
    obtain ⟨label, entries, rfl⟩ := hforeign
    cases href : Entries.get? Reference.refKey entries with
    | some ref =>
      rw [classify_of_ref href] at h
      obtain ⟨target, htarget, rfl⟩ := exists_of_map_eq_ok h
      exact .reference href htarget
    | none =>
      cases hitems : Entries.get? "items" entries with
      | some items =>
        rw [classify_of_items href hitems] at h
        obtain ⟨inner, hinner, rfl⟩ := exists_of_map_eq_ok h
        exact .array href hitems hinner
      | none =>
        cases hobject : isObject entries with
        | true =>
          have object : IsObjectSchema entries := ⟨href, hitems, hobject⟩
          rw [classify_of_isObjectSchema object] at h
          obtain ⟨_, _, _, _, hp, hr, ha, ho, rfl⟩ := classifyObject_eq_ok_iff.1 h
          exact .object object hp hr ha ho
        | false =>
          rw [classify_of_simple href hitems hobject] at h
          exact .simple href hitems hobject h
  · intro h
    cases h with
    | foreign hforeign ends =>
      rw [classify_of_not_mapping path hforeign, ends]
      rfl
    | reference found text =>
      rw [classify_of_ref found, text]
      rfl
    | array plain found classified =>
      rw [classify_of_items plain found, classified]
      rfl
    | object object hp hr ha ho =>
      rw [classify_of_isObjectSchema object]
      exact classifyObject_eq_ok_iff.2 ⟨_, _, _, _, hp, hr, ha, ho, rfl⟩
    | simple plain single simple hnode => rwa [classify_of_simple plain single simple]

/-- A node knows the place of its schema. -/
theorem path_of_classify {path : Text} {v : Value} {node : Node} (h : classify path v = .ok node) :
    node.path = path := by
  cases classify_eq_ok_iff.1 h with
  | foreign | reference | array | object => rfl
  | simple _ _ _ simple_eq => exact (leaf_of_simpleNode simple_eq).2

/-! ## Schemas that can be classified -/

/-- Properties can be classified if each name can be shown and each schema classified. -/
theorem exists_classifyProperties_iff (parent : Text) (entries : Entries) :
    (∃ nodes, classifyProperties parent entries = .ok nodes) ↔
      ∀ entry ∈ entries, entry.1.isShowable = true ∧
        ∃ node, classify (parent ++ entry.1.display) entry.2 = .ok node := by
  simp only [classifyProperties_eq_ok_iff, exists_forall₂_iff]
  refine forall₂_congr fun entry _ => ⟨?_, ?_⟩
  · rintro ⟨node, hshown, -, hnode⟩
    exact ⟨hshown, node.2, hnode⟩
  · rintro ⟨hshown, node, hnode⟩
    exact ⟨(entry.1, node), hshown, rfl, hnode⟩

/-- Members can be classified if each of them can. -/
theorem exists_classifyAll_iff (parent : Text) (schemas : List Value) :
    (∃ nodes, classifyAll parent 0 schemas = .ok nodes) ↔
      ∀ (index : Nat) (schema : Value), schemas[index]? = some schema →
        ∃ node, classify (parent ++ Text.numeral index) schema = .ok node := by
  simp only [classifyAll_eq_ok_iff, exists_forall₂_iff]
  constructor
  · intro h index schema hschema
    exact h (schema, index) (List.mem_zipIdx_iff_getElem?.2 hschema)
  · rintro h ⟨schema, index⟩ hmem
    exact h index schema (List.mem_zipIdx_iff_getElem?.1 hmem)

/-- A value can form a set if it can be gone through and its items can be members. -/
theorem exists_setOf_iff (v : Value) :
    (∃ names, setOf v = .ok names) ↔ ∃ items, itemsOf v = .ok items ∧ items.all isHashable = true := by
  simp only [setOf, bind_eq_ok_iff]
  constructor
  · rintro ⟨names, items, hitems, h⟩
    refine ⟨items, hitems, ?_⟩
    by_contra hall
    rw [if_neg hall] at h
    cases h
  · rintro ⟨items, hitems, hall⟩
    exact ⟨_, items, hitems, if_pos hall⟩

/-- The mandatory names are found if they can form a set. -/
theorem exists_requiredNames_iff (entries : Entries) :
    (∃ names, requiredNames entries = .ok names) ↔
      ∀ v, keyword? "required" entries = some v →
        ∃ items, itemsOf v = .ok items ∧ items.all isHashable = true := by
  rw [requiredNames]
  cases keyword? "required" entries with
  | none => simp
  | some v => simp only [exists_setOf_iff, Option.some.injEq, forall_eq']

/-- An enumeration can be read if there is none, or if it can be gone through. -/
theorem exists_simpleNode_of_string_iff (path : Text) {entries : Entries}
    (h : typeOf? entries = some (.text "string")) :
    (∃ node, simpleNode path entries = .ok node) ↔
      ∀ v, Entries.get? "enum" entries = some v → v ≠ .null → ∃ items, itemsOf v = .ok items := by
  by_cases hnone : ∀ v, Entries.get? "enum" entries = some v → v = .null
  · rw [simpleNode_of_string h hnone]
    exact ⟨fun _ v hv hne => absurd (hnone v hv) hne, fun _ => ⟨_, rfl⟩⟩
  · push Not at hnone
    obtain ⟨v, henum, hne⟩ := hnone
    rw [simpleNode_of_enumeration h henum hne]
    constructor
    · rintro ⟨node, hnode⟩ w hw -
      obtain rfl := Option.some.inj (henum.symm.trans hw)
      obtain ⟨items, hitems, -⟩ := exists_of_map_eq_ok hnode
      exact ⟨items, hitems⟩
    · intro hitems
      obtain ⟨items, hitems⟩ := hitems v henum hne
      rw [hitems]
      exact ⟨_, rfl⟩

/-- A schema of another type is classified if its keywords fit. -/
theorem exists_simpleNode_iff (path : Text) (entries : Entries) :
    (∃ node, simpleNode path entries = .ok node) ↔ SimpleFits entries := by
  cases htype : typeOf? entries with
  | none =>
    rw [simpleNode_of_untyped htype]
    exact ⟨fun _ => ⟨by simp [htype], by simp [htype]⟩, fun _ => ⟨_, rfl⟩⟩
  | some v =>
    have htyped : ∀ w, typeOf? entries = some w ↔ v = w := by
      intro w
      rw [htype, Option.some.injEq]
    cases htext : v.text? with
    | none =>
      rw [simpleNode_of_text?_eq_none htype htext]
      constructor
      · rintro ⟨node, hnode⟩
        obtain ⟨text, hshown, -⟩ := exists_of_map_eq_ok hnode
        refine ⟨fun heq => ?_, fun w hw _ => ?_⟩
        · rw [(htyped _).1 heq] at htext
          cases htext
        · rw [← (htyped w).1 hw]
          exact ((shownInside_eq_ok_iff v text).1 hshown).1
      · intro fits
        have hshown : shownInside v = .ok v.expression := if_pos (fits.shown v htype htext)
        rw [hshown]
        exact ⟨_, rfl⟩
    | some kind =>
      obtain rfl := Value.eq_text_of_text? htext
      have hshown : ∀ w, typeOf? entries = some w → w.text? = none → w.isShowable = true := by
        intro w hw hnone
        rw [← (htyped w).1 hw] at hnone
        cases hnone
      by_cases hkind : kind = "string"
      · subst hkind
        rw [exists_simpleNode_of_string_iff path htype]
        exact ⟨fun h => ⟨fun _ => h, hshown⟩, fun fits => fits.enumeration htype⟩
      · refine ⟨fun _ => ⟨fun heq => ?_, hshown⟩,
          fun _ => ⟨_, simpleNode_of_text path htype hkind⟩⟩
        exact absurd (Scalar.text.inj (Value.scalar.inj ((htyped _).1 heq))) hkind

theorem exists_map_eq_ok_iff {α β : Type} (x : Except Fault α) (f : α → β) :
    (∃ b, x.map f = .ok b) ↔ ∃ a, x = .ok a := by
  cases x <;> simp [Except.map]

/-- A composition can be classified if it can be gone through and its members can be classified. -/
theorem exists_classifyMembers_iff (path name : Text) (entries : Entries) :
    (∃ found, classifyMembers path name entries = .ok found) ↔
      (∀ v, keyword? name entries = some v → ∃ items, itemsOf v = .ok items) ∧
        ∀ members, Entries.get? name entries = some (.sequence members) →
          ∀ (index : Nat) (member : Value), members[index]? = some member →
            ∃ node, classify (path ++ "/" ++ name ++ "/" ++ Text.numeral index) member = .ok node := by
  cases hget : Entries.get? name entries with
  | none =>
    rw [classifyMembers_of_none hget, keyword?, hget]
    simp
  | some v =>
    rw [keyword?, hget, Option.bind_some]
    -- Only the members of a sequence are schemas; what else can be gone through gives leaves.
    by_cases hsequence : ∃ members, v = .sequence members
    · obtain ⟨members, rfl⟩ := hsequence
      rw [classifyMembers_of_sequence hget, exists_map_eq_ok_iff, exists_classifyAll_iff]
      constructor
      · intro h
        refine ⟨fun w hw => ?_, fun others hothers => ?_⟩
        · rw [Value.truthy?] at hw
          split at hw <;> cases hw
          exact ⟨members, rfl⟩
        · cases hothers
          exact h
      · rintro ⟨-, h⟩
        exact h members rfl
    · have hne : ∀ members, v ≠ .sequence members := fun members heq => hsequence ⟨members, heq⟩
      have hnone : ∀ members, some v ≠ some (.sequence members) := fun members heq =>
        hne members (Option.some.inj heq)
      rw [classifyMembers_of_other hget hne, Value.truthy?]
      split
      · rw [exists_map_eq_ok_iff]
        constructor
        · intro h
          refine ⟨fun w hw => ?_, fun members hmembers => absurd hmembers (hnone members)⟩
          cases hw
          exact h
        · rintro ⟨h, -⟩
          exact h v rfl
      · exact ⟨fun _ => ⟨by simp, fun members hmembers => absurd hmembers (hnone members)⟩,
          fun _ => ⟨_, rfl⟩⟩

/-- The properties of an object can be classified if they are a mapping, with names that can be shown
and schemas that can be classified. -/
theorem exists_propertyNodes_iff (path : Text) (entries : Entries) :
    (∃ nodes, propertyNodes path entries = .ok nodes) ↔
      (∀ v, keyword? "properties" entries = some v → ∃ label properties,
        v = .mapping label properties ∧ ∀ entry ∈ properties, entry.1.isShowable = true) ∧
      ∀ label properties, keyword? "properties" entries = some (.mapping label properties) →
        ∀ entry ∈ properties,
          ∃ node, classify (path ++ "/properties/" ++ entry.1.display) entry.2 = .ok node := by
  rw [propertyNodes]
  cases keyword? "properties" entries with
  | none => simp
  | some v =>
    cases v with
    | mapping label properties =>
      simp only [exists_classifyProperties_iff, Option.some.injEq, forall_eq', Value.mapping.injEq,
        and_imp]
      constructor
      · intro h
        refine ⟨⟨label, properties, ⟨rfl, rfl⟩, fun entry hentry => (h entry hentry).1⟩, ?_⟩
        rintro _ _ rfl rfl entry hentry
        exact (h entry hentry).2
      · rintro ⟨⟨_, _, ⟨rfl, rfl⟩, hshown⟩, hnodes⟩ entry hentry
        exact ⟨hshown entry hentry, hnodes _ _ rfl rfl entry hentry⟩
    | _ => simp

/-- An object can be classified if its keywords fit, and its properties and members can be
classified. -/
theorem exists_classifyObject_iff (path : Text) (entries : Entries) :
    (∃ node, classifyObject path entries = .ok node) ↔ ObjectFits entries ∧
      (∀ label properties, keyword? "properties" entries = some (.mapping label properties) →
        ∀ entry ∈ properties,
          ∃ node, classify (path ++ "/properties/" ++ entry.1.display) entry.2 = .ok node) ∧
      ∀ keyword ∈ compositions, ∀ members,
        Entries.get? keyword entries = some (.sequence members) →
          ∀ (index : Nat) (member : Value), members[index]? = some member →
            ∃ node, classify (path ++ "/" ++ keyword ++ "/" ++ Text.numeral index) member
              = .ok node := by
  have hstages : (∃ node, classifyObject path entries = .ok node) ↔
      (∃ properties, propertyNodes path entries = .ok properties) ∧
        (∃ required, requiredNames entries = .ok required) ∧
          ∀ keyword ∈ compositions, ∃ found, classifyMembers path keyword entries = .ok found := by
    simp only [classifyObject_eq_ok_iff, compositions, List.forall_mem_cons]
    constructor
    · rintro ⟨node, properties, required, allOf, oneOf, hp, hr, ha, ho, rfl⟩
      exact ⟨⟨properties, hp⟩, ⟨required, hr⟩, ⟨allOf, ha⟩, ⟨oneOf, ho⟩, by simp⟩
    · rintro ⟨⟨properties, hp⟩, ⟨required, hr⟩, ⟨allOf, ha⟩, ⟨oneOf, ho⟩, -⟩
      exact ⟨_, properties, required, allOf, oneOf, hp, hr, ha, ho, rfl⟩
  rw [hstages, exists_propertyNodes_iff, exists_requiredNames_iff]
  simp only [exists_classifyMembers_iff]
  constructor
  · rintro ⟨⟨hmapping, hproperties⟩, hrequired, hmembers⟩
    exact ⟨⟨hmapping, hrequired, fun keyword known => (hmembers keyword known).1⟩, hproperties,
      fun keyword known => (hmembers keyword known).2⟩
  · rintro ⟨fits, hproperties, hmembers⟩
    exact ⟨⟨fits.properties, hproperties⟩, fits.required,
      fun keyword known => ⟨fits.members keyword known, hmembers keyword known⟩⟩

/-- A schema inside a schema that is classified is classified as well. -/
theorem exists_classify_of_standsAt {place : List Step} {schema outer : Value}
    (h : StandsAt place schema outer) {path : Text} {node : Node}
    (houter : classify path outer = .ok node) : ∃ own inner, classify own schema = .ok inner := by
  induction h generalizing path node with
  | here schema => exact ⟨path, node, houter⟩
  | items plain found _ ih =>
    rw [classify_of_items plain found] at houter
    obtain ⟨inner, hinner, -⟩ := exists_of_map_eq_ok houter
    exact ih hinner
  | property object found mem _ ih =>
    rw [classify_of_isObjectSchema object] at houter
    obtain ⟨-, hproperties, -⟩ := (exists_classifyObject_iff _ _).1 ⟨node, houter⟩
    obtain ⟨inner, hinner⟩ := hproperties _ _ found _ mem
    exact ih hinner
  | member object known found mem _ ih =>
    rw [classify_of_isObjectSchema object] at houter
    obtain ⟨-, -, hmembers⟩ := (exists_classifyObject_iff _ _).1 ⟨node, houter⟩
    obtain ⟨inner, hinner⟩ := hmembers _ known _ found _ _ mem
    exact ih hinner

/-- The keywords of a schema that is classified fit. -/
theorem keywordsFit_of_classify {path : Text} {label : Option Nat} {entries : Entries}
    {node : Node} (h : classify path (.mapping label entries) = .ok node) :
    KeywordsFit entries where
  ref v hv := by
    rw [classify_of_ref hv] at h
    obtain ⟨target, htarget, -⟩ := exists_of_map_eq_ok h
    exact ((shown_eq_ok_iff v target).1 htarget).1
  object object := by
    rw [classify_of_isObjectSchema object] at h
    exact ((exists_classifyObject_iff path entries).1 ⟨node, h⟩).1
  simple plain single simple := by
    rw [classify_of_simple plain single simple] at h
    exact (exists_simpleNode_iff path entries).1 ⟨node, h⟩

/-- A value in a mapping under a key is smaller than a value with the mapping in it. -/
theorem sizeOf_entry_lt {label : Option Nat} {entries : Entries} {entry : Scalar × Value}
    (h : entry ∈ entries) : sizeOf entry.2 < sizeOf (Value.mapping label entries) := by
  have hmem := List.sizeOf_lt_of_mem h
  have hentry : sizeOf entry = 1 + sizeOf entry.1 + sizeOf entry.2 := by cases entry; rfl
  rw [Value.mapping.sizeOf_spec]
  omega

theorem sizeOf_get?_lt_mapping {name : Text} {label : Option Nat} {entries : Entries} {v : Value}
    (h : Entries.get? name entries = some v) : sizeOf v < sizeOf (Value.mapping label entries) := by
  have hlt := sizeOf_get?_lt h
  rw [Value.mapping.sizeOf_spec]
  omega

theorem sizeOf_keyword?_lt_mapping {name : Text} {label : Option Nat} {entries : Entries}
    {v : Value} (h : keyword? name entries = some v) :
    sizeOf v < sizeOf (Value.mapping label entries) := by
  have hlt := sizeOf_keyword?_lt h
  rw [Value.mapping.sizeOf_spec]
  omega

/-- An item is smaller than the sequence. -/
theorem sizeOf_member_lt {members : List Value} {member : Value} (h : member ∈ members) :
    sizeOf member < sizeOf (Value.sequence members) := by
  have hlt := List.sizeOf_lt_of_mem h
  rw [Value.sequence.sizeOf_spec]
  omega

/-- A value that is met again is not classified. -/
theorem goesRound_of_classify {path : Text} {v : Value} {node : Node}
    (h : classify path v = .ok node) : goesRound v = false := by
  cases classify_eq_ok_iff.1 h with
  | foreign _ ends => exact ends
  | _ => rfl

/-- A schema is classified if its keywords fit and the schemas inside it do so. -/
theorem exists_classify_of_fits {v : Value} (h : PlacesFit v) (path : Text) :
    ∃ node, classify path v = .ok node := by
  -- Every schema inside is smaller, and its places are places of the whole.
  induction hsize : sizeOf v using Nat.strongRecOn generalizing v path with
  | ind size ih =>
    subst hsize
    by_cases hforeign : ∀ label entries, v ≠ .mapping label entries
    · rw [classify_of_not_mapping path hforeign, h.ends [] v (.here v)]
      exact ⟨_, rfl⟩
    push Not at hforeign
    obtain ⟨label, entries, rfl⟩ := hforeign
    have fits := h.keywords [] label entries (.here _)
    cases href : Entries.get? Reference.refKey entries with
    | some ref =>
      rw [classify_of_ref href, exists_map_eq_ok_iff]
      exact ⟨_, if_pos (fits.ref ref href)⟩
    | none =>
      cases hitems : Entries.get? "items" entries with
      | some items =>
        rw [classify_of_items href hitems, exists_map_eq_ok_iff]
        exact ih _ (sizeOf_get?_lt_mapping hitems) (h.inside (.items href hitems (.here _))) _ rfl
      | none =>
        cases hobject : isObject entries with
        | false =>
          rw [classify_of_simple href hitems hobject, exists_simpleNode_iff]
          exact fits.simple href hitems hobject
        | true =>
          have object : IsObjectSchema entries := ⟨href, hitems, hobject⟩
          rw [classify_of_isObjectSchema object, exists_classifyObject_iff]
          refine ⟨fits.object object, ?_, ?_⟩
          · intro own properties hfound entry hentry
            have hlt := Nat.lt_trans (@sizeOf_entry_lt own properties entry hentry)
              (@sizeOf_keyword?_lt_mapping _ label _ _ hfound)
            exact ih _ hlt (h.inside (.property object hfound hentry (.here _))) _ rfl
          · intro keyword known members hfound index member hmember
            have hlt := Nat.lt_trans (sizeOf_member_lt (List.mem_of_getElem? hmember))
              (@sizeOf_get?_lt_mapping _ label _ _ hfound)
            exact ih _ hlt (h.inside (.member object known hfound hmember (.here _))) _ rfl

/-- **Classification.**  A schema can be classified exactly if at each place in it the keywords that
count have values that fit, and no mapping is met again. -/
theorem exists_classify_iff (path : Text) (v : Value) :
    (∃ node, classify path v = .ok node) ↔ PlacesFit v := by
  constructor
  · rintro ⟨node, hnode⟩
    refine ⟨fun place label entries hplace => ?_, fun place schema hplace => ?_⟩
    · obtain ⟨own, inner, hinner⟩ := exists_classify_of_standsAt hplace hnode
      exact keywordsFit_of_classify hinner
    · obtain ⟨own, inner, hinner⟩ := exists_classify_of_standsAt hplace hnode
      exact goesRound_of_classify hinner
  · intro h
    exact exists_classify_of_fits h path

/-! ## Where nodes come from -/

/-- A step as it is written at the end of a path. -/
def Step.text : Step → Text
  | items => "/items"
  | property name => "/properties/" ++ name.display
  | member keyword index => "/" ++ keyword ++ "/" ++ Text.numeral index

/-- A place as it is written behind the path of the outer node. -/
def placeText : List Step → Text
  | [] => ""
  | step :: place => step.text ++ placeText place

/-- Somewhere in a schema there are members of a composition that do not form a sequence. -/
def HasLooseMembers (v : Value) : Prop :=
  ∃ place label entries keyword members, StandsAt place (.mapping label entries) v ∧
    IsObjectSchema entries ∧ keyword ∈ compositions ∧
      Entries.get? keyword entries = some members ∧ members ≠ .null ∧
        ∀ items, members ≠ .sequence items

/-- A node comes from a schema at a place in another one, and its path tells this place; or the node is
a leaf for a member that does not stand in a sequence. -/
def ComesFrom (path : Text) (v : Value) (place : List Step) (node : Node) : Prop :=
  (∃ schema, StandsAt place schema v ∧ classify (path ++ placeText place) schema = .ok node) ∨
    node.isLeaf = true ∧ HasLooseMembers v

/-- What comes from a schema one step below comes from the schema above. -/
theorem ComesFrom.cons {path : Text} {step : Step} {place : List Step} {inner v : Value}
    {node : Node} (hstep : StandsAt [step] inner v)
    (h : ComesFrom (path ++ step.text) inner place node) : ComesFrom path v (step :: place) node := by
  obtain ⟨schema, hplace, hschema⟩ | ⟨leaf, others, label, entries, keyword, members, hplace, hrest⟩ :=
    h
  · rw [Text.append_assoc] at hschema
    exact Or.inl ⟨schema, hstep.trans hplace, hschema⟩
  · exact Or.inr ⟨leaf, _, label, entries, keyword, members, hstep.trans hplace, hrest⟩

/-- A leaf has no node inside but itself. -/
theorem eq_of_nodeAt_leaf {place : List Step} {node outer : Node} (h : NodeAt place node outer)
    (leaf : outer.isLeaf = true) : node = outer := by
  cases h with
  | here => rfl
  | _ => cases leaf

/-- What is matched with an item stands at the same index. -/
theorem exists_getElem?_of_forall₂ {α β : Type} {R : α → β → Prop} {as : List α} {bs : List β}
    (h : List.Forall₂ R as bs) {index : Nat} {b : β} (hb : bs[index]? = some b) :
    ∃ a, as[index]? = some a ∧ R a b := by
  induction h generalizing index with
  | nil => cases hb
  | @cons a _ _ _ hfirst _ ih =>
    cases index with
    | zero =>
      cases hb
      exact ⟨a, rfl, hfirst⟩
    | succ index => exact ih hb

/-- A component comes from an entry of the table of schemas with its name. -/
theorem exists_entry_of_component {document : Value} {found : List Component}
    (h : components document = .ok found) {component : Component} (mem : component ∈ found) :
    ∃ table schema, componentSchemas document = .ok table ∧ (component.name, schema) ∈ table ∧
      classify (Reference.toSchema component.name.display) schema = .ok component.body := by
  obtain ⟨table, htable, hmatched⟩ := (components_eq_ok_iff _ _).1 h
  obtain ⟨index, hindex⟩ := List.mem_iff_getElem?.1 mem
  obtain ⟨⟨name, schema⟩, hentry, -, hname, hclassified⟩ := exists_getElem?_of_forall₂ hmatched hindex
  obtain rfl : component.name = name := hname
  exact ⟨table, schema, htable, List.mem_of_getElem? hentry, hclassified⟩

/-- The node of a property comes from the schema of a property of this name. -/
theorem exists_property_of_nodes {path : Text} {entries : Entries}
    {nodes : List (Scalar × Node)} (h : propertyNodes path entries = .ok nodes) {name : Scalar}
    {node : Node} (hnode : (name, node) ∈ nodes) :
    ∃ label properties property, keyword? "properties" entries = some (.mapping label properties) ∧
      (name, property) ∈ properties ∧
        classify (path ++ "/properties/" ++ name.display) property = .ok node := by
  rw [propertyNodes] at h
  split at h
  · next label properties hfound =>
    obtain ⟨index, hindex⟩ := List.mem_iff_getElem?.1 hnode
    obtain ⟨⟨other, property⟩, hproperty, -, hname, hclassified⟩ :=
      exists_getElem?_of_forall₂ ((classifyProperties_eq_ok_iff _ _ _).1 h) hindex
    obtain rfl : name = other := hname
    exact ⟨label, properties, property, hfound, List.mem_of_getElem? hproperty, hclassified⟩
  · cases h
  · cases h
    cases hnode

/-- The members of a composition are the nodes of schemas, index by index, or they are leaves. -/
theorem exists_member_of_nodes {path name : Text} {entries : Entries} {nodes : List Node}
    (h : classifyMembers path name entries = .ok (some nodes)) {index : Nat} {node : Node}
    (hnode : nodes[index]? = some node) :
    (∃ members member, Entries.get? name entries = some (.sequence members) ∧
      members[index]? = some member ∧
        classify (path ++ "/" ++ name ++ "/" ++ Text.numeral index) member = .ok node) ∨
    node.isLeaf = true ∧ ∃ v, Entries.get? name entries = some v ∧ v ≠ .null ∧
      ∀ members, v ≠ .sequence members := by
  cases hget : Entries.get? name entries with
  | none =>
    rw [classifyMembers_of_none hget] at h
    cases h
  | some v =>
    by_cases hsequence : ∃ members, v = .sequence members
    · obtain ⟨members, rfl⟩ := hsequence
      rw [classifyMembers_of_sequence hget] at h
      obtain ⟨found, hfound, heq⟩ := exists_of_map_eq_ok h
      obtain rfl := Option.some.inj heq
      have hmatched := (classifyAll_eq_ok_iff _ _ _ _).1 hfound
      obtain ⟨numbered, hnumbered, hclassified⟩ := exists_getElem?_of_forall₂ hmatched hnode
      rw [List.getElem?_zipIdx, Option.map_eq_some_iff] at hnumbered
      obtain ⟨member, hmember, rfl⟩ := hnumbered
      rw [Nat.zero_add] at hclassified
      exact Or.inl ⟨members, member, rfl, hmember, hclassified⟩
    · have hne : ∀ members, v ≠ .sequence members := fun members heq => hsequence ⟨members, heq⟩
      rw [classifyMembers_of_other hget hne] at h
      split at h
      · next htruthy =>
        have hnull : v ≠ .null := by
          rintro rfl
          cases htruthy
        obtain ⟨items, -, heq⟩ := exists_of_map_eq_ok h
        obtain rfl := Option.some.inj heq
        rw [List.getElem?_mapIdx, Option.map_eq_some_iff] at hnode
        obtain ⟨member, -, rfl⟩ := hnode
        exact Or.inr ⟨rfl, v, rfl, hnull, hne⟩
      · cases h
        cases hnode

/-- A node inside a member of a composition comes from a schema inside this member. -/
theorem comesFrom_of_member {place : List Step} {path keyword : Text} {label : Option Nat}
    {entries : Entries} {nodes : List Node} {index : Nat} {node member : Node}
    (object : IsObjectSchema entries) (known : keyword ∈ compositions)
    (h : classifyMembers path keyword entries = .ok (some nodes))
    (hmember : nodes[index]? = some member) (hplace : NodeAt place node member)
    (ih : ∀ {path : Text} {v : Value}, classify path v = .ok member →
      ComesFrom path v place node) :
    ComesFrom path (.mapping label entries) (.member keyword index :: place) node := by
  obtain ⟨members, schema, hget, hschema, hclassified⟩ | ⟨leaf, members, hget, hloose⟩ :=
    exists_member_of_nodes h hmember
  · refine .cons (.member object known hget hschema (.here _)) (ih ?_)
    rwa [Step.text, ← Text.append_assoc, ← Text.append_assoc, ← Text.append_assoc]
  · obtain rfl := eq_of_nodeAt_leaf hplace leaf
    exact Or.inr ⟨leaf, [], label, entries, keyword, members, .here _, object, known, hget, hloose⟩

/-- **Nodes.**  Every node inside another one comes from a schema at the same place, unless it is a leaf
for a member that does not stand in a sequence. -/
theorem comesFrom_of_nodeAt {place : List Step} {path : Text} {node outer : Node} {v : Value}
    (h : NodeAt place node outer) (hv : classify path v = .ok outer) :
    ComesFrom path v place node := by
  -- The induction is on the place of the node; the shape of the schema around it is known then.
  induction h generalizing path v with
  | here node =>
    rw [← @Text.append_empty path] at hv
    exact Or.inl ⟨v, .here v, hv⟩
  | items _ ih =>
    cases classify_eq_ok_iff.1 hv with
    | array plain found classified => exact .cons (.items plain found (.here _)) (ih classified)
    | simple _ _ _ simple_eq => cases isLeaf_of_simpleNode simple_eq
  | property mem _ ih =>
    cases classify_eq_ok_iff.1 hv with
    | object object properties_eq _ _ _ =>
      obtain ⟨own, properties, property, hfound, hmem, hclassified⟩ :=
        exists_property_of_nodes properties_eq mem
      rw [Text.append_assoc] at hclassified
      exact .cons (.property object hfound hmem (.here _)) (ih hclassified)
    | simple _ _ _ simple_eq => cases isLeaf_of_simpleNode simple_eq
  | allOf mem inside ih =>
    cases classify_eq_ok_iff.1 hv with
    | object object _ _ allOf_eq _ =>
      exact comesFrom_of_member object (by simp [compositions]) allOf_eq mem inside ih
    | simple _ _ _ simple_eq => cases isLeaf_of_simpleNode simple_eq
  | oneOf mem inside ih =>
    cases classify_eq_ok_iff.1 hv with
    | object object _ _ _ oneOf_eq =>
      exact comesFrom_of_member object (by simp [compositions]) oneOf_eq mem inside ih
    | simple _ _ _ simple_eq => cases isLeaf_of_simpleNode simple_eq

/-- **References.**  A node that is a reference comes from a schema at the same place which has this
reference. -/
theorem exists_ref_of_nodeAt {place : List Step} {own target path : Text} {outer : Node}
    {v : Value} (h : NodeAt place (.reference own target) outer) (hv : classify path v = .ok outer) :
    ∃ label entries ref, StandsAt place (.mapping label entries) v ∧
      Entries.get? Reference.refKey entries = some ref ∧ shown ref = .ok target := by
  obtain ⟨schema, hplace, hschema⟩ | ⟨leaf, -⟩ := comesFrom_of_nodeAt h hv
  · cases classify_eq_ok_iff.1 hschema with
    | reference found text => exact ⟨_, _, _, hplace, found, text⟩
    | simple _ _ _ simple_eq => cases isLeaf_of_simpleNode simple_eq
  · cases leaf

end SchemaCodecs.Schema
