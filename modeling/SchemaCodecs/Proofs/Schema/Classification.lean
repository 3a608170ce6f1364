/-
# What classifying gives

The equations of the classification, one for each shape of schema: what has to succeed, and which
node comes out.
-/
import SchemaCodecs.Proofs.Value.Sameness
import SchemaCodecs.Schema.Classify
import SchemaCodecs.Traced
import Mathlib.Data.List.Forall2

namespace SchemaCodecs.Schema

/-! ## Texts -/

@[simp] theorem shown_eq_ok_iff (v : Value) (s : Text) :
    shown v = .ok s ↔ v.isShowable = true ∧ v.display = s := by
  unfold shown
  split <;> simp_all

@[simp] theorem shownInside_eq_ok_iff (v : Value) (s : Text) :
    shownInside v = .ok s ↔ v.isShowable = true ∧ v.expression = s := by
  unfold shownInside
  split <;> simp_all

/-! ## Properties and members -/

/-- A list is matched item by item if each item can be matched. -/
theorem exists_forall₂_iff {α β : Type} {R : α → β → Prop} (as : List α) :
    (∃ bs, List.Forall₂ R as bs) ↔ ∀ a ∈ as, ∃ b, R a b := by
  induction as with
  | nil => simp
  | cons a rest ih =>
    rw [List.forall_mem_cons, ← ih]
    constructor
    · rintro ⟨bs, hbs⟩
      cases hbs with
      | cons hfirst hrest => exact ⟨⟨_, hfirst⟩, _, hrest⟩
    · rintro ⟨⟨b, hfirst⟩, bs, hrest⟩
      exact ⟨b :: bs, .cons hfirst hrest⟩

/-- Properties are classified one by one, each at its name. -/
theorem classifyProperties_eq_ok_iff (parent : Text) (entries : Entries)
    (nodes : List (Scalar × Node)) :
    classifyProperties parent entries = .ok nodes ↔
      List.Forall₂ (fun entry node => entry.1.isShowable = true ∧ node.1 = entry.1 ∧
        classify (parent ++ entry.1.display) entry.2 = .ok node.2) entries nodes := by
  induction entries generalizing nodes with
  | nil =>
    rw [classifyProperties, List.forall₂_nil_left_iff, Except.ok.injEq]
    exact eq_comm
  | cons entry rest ih =>
    obtain ⟨name, schema⟩ := entry
    rw [classifyProperties, List.forall₂_cons_left_iff]
    simp only [bind_eq_ok_iff, shown_eq_ok_iff]
    constructor
    · rintro ⟨text, ⟨hshow, rfl⟩, node, hnode, others, hothers, heq⟩
      cases heq
      exact ⟨(name, node), others, ⟨hshow, rfl, hnode⟩, (ih others).1 hothers, rfl⟩
    · rintro ⟨⟨own, node⟩, others, ⟨hshow, rfl, hnode⟩, hothers, rfl⟩
      exact ⟨_, ⟨hshow, rfl⟩, node, hnode, others, (ih others).2 hothers, rfl⟩

/-- A list of schemas is classified one by one, each at its index. -/
theorem classifyAll_eq_ok_iff (parent : Text) (index : Nat) (schemas : List Value)
    (nodes : List Node) :
    classifyAll parent index schemas = .ok nodes ↔
      List.Forall₂ (fun numbered node =>
        classify (parent ++ Text.numeral numbered.2) numbered.1 = .ok node)
        (schemas.zipIdx index) nodes := by
  induction schemas generalizing index nodes with
  | nil =>
    rw [classifyAll, List.zipIdx_nil, List.forall₂_nil_left_iff, Except.ok.injEq]
    exact eq_comm
  | cons schema rest ih =>
    rw [classifyAll, List.zipIdx_cons, List.forall₂_cons_left_iff]
    simp only [bind_eq_ok_iff]
    constructor
    · rintro ⟨node, hnode, others, hothers, heq⟩
      cases heq
      exact ⟨node, others, hnode, (ih _ others).1 hothers, rfl⟩
    · rintro ⟨node, others, hnode, hothers, rfl⟩
      exact ⟨node, hnode, others, (ih _ others).2 hothers, rfl⟩

/-! ## Keywords -/

/-- A value under a keyword that counts as true stands there. -/
theorem get?_of_keyword? {name : Text} {entries : Entries} {v : Value}
    (h : keyword? name entries = some v) : Entries.get? name entries = some v := by
  obtain ⟨w, hw, htruthy⟩ := Option.bind_eq_some_iff.1 h
  rw [Value.truthy?] at htruthy
  split at htruthy
  · cases htruthy
    exact hw
  · cases htruthy

/-! ## Shapes -/

theorem classify_of_not_mapping (path : Text) {v : Value}
    (h : ∀ label entries, v ≠ .mapping label entries) :
    classify path v = if goesRound v then .error .endless else .ok (foreignNode path v) := by
  cases v with
  | mapping label entries => exact absurd rfl (h label entries)
  | _ => rw [classify]; simp

section Shapes

variable {path : Text} {label : Option Nat} {entries : Entries}

/-- A schema with a reference is the reference. -/
theorem classify_of_ref {target : Value} (h : Entries.get? Reference.refKey entries = some target) :
    classify path (.mapping label entries) = (shown target).map (Node.reference path) := by
  rw [classify]
  simp only [h]
  cases shown target <;> rfl

/-- Without a reference, a schema with items is an array. -/
theorem classify_of_items {items : Value} (plain : Entries.get? Reference.refKey entries = none)
    (h : Entries.get? "items" entries = some items) :
    classify path (.mapping label entries)
      = (classify (path ++ "/items") items).map fun node => .array path (some node) := by
  rw [classify]
  simp only [plain]
  split
  · next other hother =>
    obtain rfl : items = other := by simpa [h] using hother
    cases classify (path ++ "/items") items <;> rfl
  · next hnone =>
    rw [h] at hnone
    cases hnone

/-- Entries that describe an object: neither a reference nor items. -/
structure IsObjectSchema (entries : Entries) : Prop where
  /-- There is no reference. -/
  plain : Entries.get? Reference.refKey entries = none
  /-- There are no items. -/
  single : Entries.get? "items" entries = none
  /-- The type is that of objects, or there is none but a composition. -/
  object : isObject entries = true

/-- Entries that describe an object are classified as one. -/
theorem classify_of_isObjectSchema (h : IsObjectSchema entries) :
    classify path (.mapping label entries) = classifyObject path entries := by
  rw [classify]
  simp only [h.plain]
  split
  · next other hother =>
    rw [h.single] at hother
    cases hother
  · rw [if_pos h.object]

/-- Any other schema is a simple one. -/
theorem classify_of_simple (plain : Entries.get? Reference.refKey entries = none)
    (single : Entries.get? "items" entries = none) (simple : isObject entries = false) :
    classify path (.mapping label entries) = simpleNode path entries := by
  rw [classify]
  simp only [plain]
  split
  · next other hother =>
    rw [single] at hother
    cases hother
  · rw [if_neg (by simp [simple])]

/-! ## Simple schemas -/

theorem simpleNode_of_untyped (h : typeOf? entries = none) : simpleNode path entries
    = .ok (.unclassified path "no type, items, $ref or composition keyword") := by
  rw [simpleNode, h]

/-- A schema of texts without an enumeration. -/
theorem simpleNode_of_string (h : typeOf? entries = some (.text "string"))
    (hnone : ∀ v, Entries.get? "enum" entries = some v → v = .null) :
    simpleNode path entries = .ok (.string path none) := by
  have htext : (Value.text "string").text? = some ("string" : Text) := rfl
  rw [simpleNode, h]
  simp only [htext, if_true]
  split
  · rfl
  · rfl
  · next v hne henum => exact absurd (hnone v henum) hne

/-- A schema of texts with an enumeration. -/
theorem simpleNode_of_enumeration (h : typeOf? entries = some (.text "string")) {v : Value}
    (henum : Entries.get? "enum" entries = some v) (hne : v ≠ .null) :
    simpleNode path entries = (itemsOf v).map fun items => .string path (some items) := by
  have htext : (Value.text "string").text? = some ("string" : Text) := rfl
  rw [simpleNode, h]
  simp only [htext, henum, if_true]
  cases itemsOf v <;> rfl

/-- A schema with another text for its type is a primitive or of no kind. -/
theorem simpleNode_of_text (path : Text) {kind : Text}
    (h : typeOf? entries = some (.text kind)) (hne : kind ≠ "string") :
    simpleNode path entries = .ok (if primitiveKinds.contains kind then .primitive path kind
      else .unclassified path ("unsupported type " ++ (Value.text kind).expression)) := by
  have htext : (Value.text kind).text? = some kind := rfl
  rw [simpleNode, h]
  simp only [htext, if_neg hne]
  split <;> rfl

theorem simpleNode_of_text?_eq_none {v : Value} (h : typeOf? entries = some v)
    (htext : v.text? = none) : simpleNode path entries
      = (shownInside v).map fun text => .unclassified path ("unsupported type " ++ text) := by
  rw [simpleNode, h]
  simp only [htext]
  cases shownInside v <;> rfl

/-- Whether a node has no other nodes in it and is no reference. -/
def Node.isLeaf : Node → Bool
  | .string _ _ | .primitive _ _ | .unclassified _ _ => true
  | _ => false

/-- Every simple schema is a leaf at its place. -/
theorem leaf_of_simpleNode {node : Node} (h : simpleNode path entries = .ok node) :
    node.isLeaf = true ∧ node.path = path := by
  cases htype : typeOf? entries with
  | none =>
    rw [simpleNode_of_untyped htype] at h
    cases h
    exact ⟨rfl, rfl⟩
  | some v =>
    cases htext : v.text? with
    | none =>
      rw [simpleNode_of_text?_eq_none htype htext] at h
      obtain ⟨text, -, rfl⟩ := exists_of_map_eq_ok h
      exact ⟨rfl, rfl⟩
    | some kind =>
      obtain rfl := Value.eq_text_of_text? htext
      by_cases hkind : kind = "string"
      · subst hkind
        by_cases hnone : ∀ v, Entries.get? "enum" entries = some v → v = .null
        · rw [simpleNode_of_string htype hnone] at h
          cases h
          exact ⟨rfl, rfl⟩
        · push Not at hnone
          obtain ⟨v, henum, hne⟩ := hnone
          rw [simpleNode_of_enumeration htype henum hne] at h
          obtain ⟨items, -, rfl⟩ := exists_of_map_eq_ok h
          exact ⟨rfl, rfl⟩
      · rw [simpleNode_of_text path htype hkind] at h
        cases h
        split <;> exact ⟨rfl, rfl⟩

theorem isLeaf_of_simpleNode {node : Node} (h : simpleNode path entries = .ok node) :
    node.isLeaf = true :=
  (leaf_of_simpleNode h).1

/-! ## Objects -/

/-- The nodes of the properties of an object. -/
def propertyNodes (path : Text) (entries : Entries) : Except Fault (List (Scalar × Node)) :=
  match keyword? "properties" entries with
  | some (.mapping _ properties) => classifyProperties (path ++ "/properties/") properties
  | some _ => .error (.illTyped .lacksPart)
  | none => .ok []

/-- The names of the mandatory properties of an object. -/
def requiredNames (entries : Entries) : Except Fault (List Scalar) :=
  match keyword? "required" entries with
  | some names => setOf names
  | none => .ok []

/-- An object is classified in stages: its properties, the names of the mandatory ones, and the members
of both compositions. -/
theorem classifyObject_eq (path : Text) (entries : Entries) :
    classifyObject path entries = (do
      let properties ← propertyNodes path entries
      let required ← requiredNames entries
      let allOf ← classifyMembers path "allOf" entries
      let oneOf ← classifyMembers path "oneOf" entries
      return .object path properties required allOf oneOf) := by
  -- In the definition the match on the properties carries its own proof.
  rw [classifyObject, requiredNames]
  split
  · next properties hfound =>
    have hnodes : propertyNodes path entries
        = classifyProperties (path ++ "/properties/") properties := by
      rw [propertyNodes, hfound]
    rw [hnodes]
    cases keyword? "required" entries <;> rfl
  · next v hne hfound =>
    have hnodes : propertyNodes path entries = .error (.illTyped .lacksPart) := by
      rw [propertyNodes, hfound]
      cases v with
      | mapping label properties => exact absurd rfl (hne label properties)
      | _ => rfl
    rw [hnodes]
    cases keyword? "required" entries <;> rfl
  · next hfound =>
    have hnodes : propertyNodes path entries = .ok [] := by rw [propertyNodes, hfound]
    rw [hnodes]
    cases keyword? "required" entries <;> rfl

/-- An object is classified if its properties, the names of the mandatory ones and the members of
both compositions are. -/
theorem classifyObject_eq_ok_iff {node : Node} :
    classifyObject path entries = .ok node ↔
      ∃ properties required allOf oneOf, propertyNodes path entries = .ok properties ∧
        requiredNames entries = .ok required ∧ classifyMembers path "allOf" entries = .ok allOf ∧
          classifyMembers path "oneOf" entries = .ok oneOf ∧
            node = .object path properties required allOf oneOf := by
  rw [classifyObject_eq]
  simp only [bind_eq_ok_iff]
  constructor
  · rintro ⟨properties, hp, required, hr, allOf, ha, oneOf, ho, heq⟩
    exact ⟨properties, required, allOf, oneOf, hp, hr, ha, ho, (Except.ok.inj heq).symm⟩
  · rintro ⟨properties, required, allOf, oneOf, hp, hr, ha, ho, rfl⟩
    exact ⟨properties, hp, required, hr, allOf, ha, oneOf, ho, rfl⟩

theorem classifyMembers_of_none {name : Text} (h : Entries.get? name entries = none) :
    classifyMembers path name entries = .ok none := by
  rw [classifyMembers]
  split
  · rfl
  all_goals simp_all

/-- The members of a composition that is a sequence are classified one by one. -/
theorem classifyMembers_of_sequence {name : Text} {members : List Value}
    (h : Entries.get? name entries = some (.sequence members)) :
    classifyMembers path name entries
      = (classifyAll (path ++ "/" ++ name ++ "/") 0 members).map some := by
  rw [classifyMembers]
  split
  · simp_all
  · next found hfound =>
    obtain rfl : members = found := by simpa [h] using hfound
    cases classifyAll (path ++ "/" ++ name ++ "/") 0 members <;> rfl
  · next hne found => exact absurd (Option.some.inj (found.symm.trans h)) (hne members)

/-- Any other collection has members that are no schemas. -/
theorem classifyMembers_of_other {name : Text} {v : Value}
    (h : Entries.get? name entries = some v) (hne : ∀ members, v ≠ .sequence members) :
    classifyMembers path name entries = if v.isTruthy then
      (itemsOf v).map fun items => some (items.mapIdx fun i member =>
        foreignNode (path ++ "/" ++ name ++ "/" ++ Text.numeral i) member)
      else .ok (some []) := by
  rw [classifyMembers]
  split
  · simp_all
  · next found hfound => exact absurd (Option.some.inj (h.symm.trans hfound)) (hne found)
  · next hfound =>
    obtain rfl := Option.some.inj (h.symm.trans hfound)
    split
    · cases itemsOf v <;> rfl
    · rfl

end Shapes

/-! ## Documents -/

/-- The components of a document are the nodes of its schemas, one by one. -/
theorem components_eq_ok_iff (document : Value) (found : List Component) :
    components document = .ok found ↔ ∃ table, componentSchemas document = .ok table ∧
      List.Forall₂ (fun entry component => entry.1.isShowable = true ∧
        component.name = entry.1 ∧
          classify (Reference.toSchema entry.1.display) entry.2 = .ok component.body)
        table found := by
  simp only [components, bind_eq_ok_iff, classifyProperties_eq_ok_iff]
  constructor
  · rintro ⟨table, htable, nodes, hnodes, heq⟩
    cases heq
    exact ⟨table, htable, List.forall₂_map_right_iff.2 (hnodes.imp fun _ _ h => h)⟩
  · rintro ⟨table, htable, hfound⟩
    refine ⟨table, htable, found.map fun component => (component.name, component.body), ?_, ?_⟩
    · exact List.forall₂_map_right_iff.2 (hfound.imp fun _ _ h => h)
    · show Except.ok _ = Except.ok found
      rw [List.map_map]
      exact congrArg Except.ok (List.map_id found)

/-- The component schemas of a document have texts as their names. -/
def HasTextNames (document : Value) : Prop :=
  ∀ table, componentSchemas document = .ok table → ∀ entry ∈ table, ∃ name, entry.1 = .text name

/-- The components of a document have the keys of its schemas as their names. -/
theorem names_of_components {document : Value} {table : Entries} {found : List Component}
    (htable : componentSchemas document = .ok table) (h : components document = .ok found) :
    found.map (·.name) = table.map (·.1) := by
  obtain ⟨table', htable', hfound⟩ := (components_eq_ok_iff document found).1 h
  obtain rfl := Except.ok.inj (htable'.symm.trans htable)
  clear h htable htable'
  induction hfound with
  | nil => rfl
  | cons hfirst _ ih => rw [List.map_cons, List.map_cons, ih, hfirst.2.1]

end SchemaCodecs.Schema
