/-
# Siblings of references

A schema that holds a reference may lose what stands beside it: the classification takes it for a
reference before it looks at anything else.  A document may lose such siblings wherever it is read as
a schema or not read at all, but not where the entries of a mapping have a meaning of their own, as
in a table of schemas or under a keyword.

* `Role` : how a part of a document is read;
* `Pruned` : a value that has lost siblings of references;
* `classifiesAlike` : the classification does not notice.
-/
import SchemaCodecs.Bundle.Install
import SchemaCodecs.Proofs.Bundle.Course
import SchemaCodecs.Proofs.Schema.Classification

namespace SchemaCodecs.Schema

/-! ## Roles -/

/-- How a part of a document is read. -/
inductive Role where
  /-- As a document. -/
  | document
  /-- As the components of a document. -/
  | components
  /-- As a table of schemas. -/
  | schemas
  /-- As a schema. -/
  | schema
  /-- As the members of a composition. -/
  | members
  /-- As the value of a keyword that counts with everything in it. -/
  | whole
  /-- Not at all. -/
  | ignored
  deriving DecidableEq

namespace Role

/-- How the value under a key is read. -/
def entry : Role → Scalar → Role
  | document, key => if key = .text componentsKey then components else ignored
  | components, key => if key = .text schemasKey then schemas else ignored
  | schemas, _ => schema
  | schema, key =>
    if key = .text "items" then schema
    else if key = .text "properties" then schemas
    else if key ∈ [.text "allOf", .text "oneOf"] then members
    else if key ∈ [.text Reference.refKey, .text "type", .text "enum", .text "required"] then whole
    else ignored
  | members, _ => ignored
  | whole, _ => whole
  | ignored, _ => ignored

/-- How the items of a sequence and the parts of a pair are read. -/
def item : Role → Role
  | members => schema
  | whole => whole
  | _ => ignored

end Role

/-! ## Values that have lost siblings -/

/-- The second value is the first one without some siblings of references, in which no reference is
met; the mappings with references may carry other labels, and collections that are met again other
numbers. -/
inductive Pruned (rename : Nat → Nat) : Role → Value → Value → Prop where
  /-- A scalar. -/
  | scalar (role : Role) (s : Scalar) : Pruned rename role (.scalar s) (.scalar s)
  /-- A collection that is met again, where it does not count which one it is. -/
  | again {role : Role} (loose : role ≠ .whole) (place : Recurrence) (number : Nat) :
    Pruned rename role (.scalar (.again place)) (.scalar (.again { place with number := number }))
  /-- A set. -/
  | set (role : Role) (members : List Scalar) : Pruned rename role (.set members) (.set members)
  /-- A sequence, item by item. -/
  | sequence {role : Role} {items others : List Value} (length_eq : items.length = others.length)
      (parts : ∀ v w, (v, w) ∈ items.zip others → Pruned rename role.item v w) :
    Pruned rename role (.sequence items) (.sequence others)
  /-- A pair, part by part. -/
  | pair {role : Role} {first second first' second' : Value}
      (left : Pruned rename role.item first first')
      (right : Pruned rename role.item second second') :
    Pruned rename role (.pair first second) (.pair first' second')
  /-- A mapping, entry by entry. -/
  | mapping {role : Role} {label label' : Option Nat} {entries others : Entries}
      (own : ∀ ref, (.text Reference.refKey, .text ref) ∈ entries → label' = label.map rename)
      (keys_eq : entries.map Prod.fst = others.map Prod.fst)
      (parts : ∀ a b, (a, b) ∈ entries.zip others → Pruned rename (role.entry a.1) a.2 b.2) :
    Pruned rename role (.mapping label entries) (.mapping label' others)
  /-- A mapping of which only the reference is left. -/
  | reference {role : Role} {label : Option Nat} {entries : Entries} {ref : Text}
      (loses : role = .schema ∨ role = .ignored)
      (found : Entries.get? Reference.refKey entries = some (.text ref))
      (siblings : ∀ entry ∈ entries, isRefKey entry.1 = false → entry.2.IsSilent) :
    Pruned rename role (.mapping label entries)
      (.mapping (label.map rename) [(.text Reference.refKey, .text ref)])

section Entries

variable {P Q : Scalar → Value → Value → Prop} {entries others : Entries}

/-- Two lists of entries have the same keys and, under each, values of which the given fact holds. -/
def EntriesMatch (P : Scalar → Value → Value → Prop) (entries others : Entries) : Prop :=
  List.Forall₂ (fun a b => b.1 = a.1 ∧ P a.1 a.2 b.2) entries others

/-- Entries match if their keys are equal and neighbours match. -/
theorem entriesMatch_iff_zip :
    EntriesMatch P entries others ↔ entries.map Prod.fst = others.map Prod.fst ∧
      ∀ a b, (a, b) ∈ entries.zip others → P a.1 a.2 b.2 := by
  constructor
  · intro h
    refine ⟨?_, fun a b hmem => (List.forall₂_zip h hmem).2⟩
    induction h with
    | nil => rfl
    | cons hfirst _ ih => rw [List.map_cons, List.map_cons, hfirst.1, ih]
  · rintro ⟨hkeys, hparts⟩
    induction entries generalizing others with
    | nil =>
      cases others with
      | nil => exact .nil
      | cons _ _ => cases hkeys
    | cons a rest ih =>
      cases others with
      | nil => cases hkeys
      | cons b more =>
        obtain ⟨hkey, hmore⟩ := List.cons.inj hkeys
        refine .cons ⟨hkey.symm, hparts a b List.mem_cons_self⟩ (ih hmore ?_)
        exact fun a b hmem => hparts a b (List.mem_cons_of_mem _ hmem)

theorem EntriesMatch.imp (h : EntriesMatch P entries others)
    (himp : ∀ key v w, P key v w → Q key v w) : EntriesMatch Q entries others :=
  List.Forall₂.imp (fun _ _ hab => ⟨hab.1, himp _ _ _ hab.2⟩) h

/-- Under each key both lists have no value, or values that match. -/
theorem EntriesMatch.get? (h : EntriesMatch P entries others) (key : Text) :
    (Entries.get? key entries = none ∧ Entries.get? key others = none) ∨
      ∃ v w, Entries.get? key entries = some v ∧ Entries.get? key others = some w ∧
        P (.text key) v w := by
  induction h with
  | nil => exact Or.inl ⟨rfl, rfl⟩
  | @cons a b rest more hfirst hrest ih =>
    obtain ⟨hkey, hvalues⟩ := hfirst
    simp only [Entries.get?, Entries.lookup, List.find?_cons, hkey] at ih ⊢
    by_cases hsame : a.1.same (.text key) = true
    · rw [(Scalar.same_text_iff _ _).1 hsame] at hvalues
      simp only [hsame]
      exact Or.inr ⟨a.2, b.2, rfl, rfl, hvalues⟩
    · simp only [hsame]
      exact ih

/-- Entries that match still do after their values have been changed in a way that fits. -/
theorem EntriesMatch.map {change change' : Scalar × Value → Value}
    (h : EntriesMatch P entries others)
    (fits : ∀ a ∈ entries, ∀ b, b.1 = a.1 → P a.1 a.2 b.2 → Q a.1 (change a) (change' b)) :
    EntriesMatch Q (entries.map fun entry => (entry.1, change entry))
      (others.map fun entry => (entry.1, change' entry)) := by
  induction h with
  | nil => exact .nil
  | @cons a b rest more hfirst hrest ih =>
    refine .cons ⟨hfirst.1, fits a List.mem_cons_self b hfirst.1 hfirst.2⟩ (ih ?_)
    exact fun a ha => fits a (List.mem_cons_of_mem _ ha)

/-- Both lists have the same keys. -/
theorem EntriesMatch.hasKey_eq (h : EntriesMatch P entries others) (key : Text) :
    Entries.hasKey key others = Entries.hasKey key entries := by
  rw [Entries.hasKey, Entries.hasKey]
  rcases h.get? key with ⟨hv, hw⟩ | ⟨v, w, hv, hw, -⟩
  · rw [hv, hw]
  · rw [hv, hw]
    rfl

end Entries

section Pruning

variable {rename : Nat → Nat} {role : Role} {v w : Value}

/-- A mapping has lost siblings if its entries have, under each key. -/
theorem Pruned.of_entriesMatch {label label' : Option Nat} {entries others : Entries}
    (own : ∀ ref, (.text Reference.refKey, .text ref) ∈ entries → label' = label.map rename)
    (h : EntriesMatch (fun key => Pruned rename (role.entry key)) entries others) :
    Pruned rename role (.mapping label entries) (.mapping label' others) := by
  obtain ⟨keys_eq, parts⟩ := entriesMatch_iff_zip.1 h
  exact .mapping own keys_eq parts

/-- A value may have lost nothing. -/
theorem Pruned.refl (role : Role) (v : Value) : Pruned id role v v := by
  induction v using Value.parts_induction generalizing role with
  | scalar s => exact .scalar role s
  | sequence items ih =>
    exact .sequence rfl fun v w hmem =>
      List.forall₂_zip (List.forall₂_same.2 fun v hv => ih v hv role.item) hmem
  | mapping label entries ih =>
    have hmatch : EntriesMatch (fun key => Pruned id (role.entry key)) entries entries :=
      List.forall₂_same.2 fun entry hentry => ⟨rfl, ih entry hentry _⟩
    exact .of_entriesMatch (fun _ _ => (Option.map_id_apply).symm) hmatch
  | set members => exact .set role members
  | pair first second ihfirst ihsecond => exact .pair (ihfirst _) (ihsecond _)

/-- What may be lost where a value is read may be lost where it is not. -/
theorem Pruned.ignored (h : Pruned rename role v w) : Pruned rename .ignored v w := by
  induction h with
  | scalar _ s => exact .scalar _ s
  | again _ place number => exact .again (by decide) place number
  | set _ members => exact .set _ members
  | sequence length_eq _ ih => exact .sequence length_eq ih
  | pair _ _ ihleft ihright => exact .pair ihleft ihright
  | mapping own keys_eq _ ih => exact .mapping own keys_eq ih
  | reference _ found siblings => exact .reference (Or.inr rfl) found siblings

/-- A value that has lost siblings counts as true if the other one does. -/
theorem Pruned.isTruthy_eq (h : Pruned rename role v w) : w.isTruthy = v.isTruthy := by
  cases h with
  | scalar | again | set | pair => rfl
  | @sequence _ items others length_eq _ =>
    cases items <;> cases others <;> first | rfl | cases length_eq
  | @mapping _ _ _ entries others _ keys_eq _ =>
    cases entries <;> cases others <;> first | rfl | cases keys_eq
  | @reference _ _ entries ref loses found siblings =>
    cases entries with
    | nil => cases found
    | cons _ _ => rfl

@[simp] theorem Pruned.kindName_eq (h : Pruned rename role v w) : w.kindName = v.kindName := by
  cases h <;> rfl

end Pruning

/-! ## The stages of the classification -/

/-- The nodes of a table of schemas, each at its name below the given path. -/
def tableNodes (parent : Text) : Value → Except Fault (List (Scalar × Node))
  | .mapping _ table => classifyProperties parent table
  | _ => .error (.illTyped .lacksPart)

/-- The nodes of the members of a composition, each at its index below the given path. -/
def memberNodes (parent : Text) : Value → Except Fault (List Node)
  | .sequence members => classifyAll parent 0 members
  | v =>
    if v.isTruthy then
      (itemsOf v).map fun items => items.mapIdx fun i member =>
        foreignNode (parent ++ Text.numeral i) member
    else .ok []

/-- The properties of an object are the nodes of a table, if there is one. -/
theorem propertyNodes_eq (path : Text) (entries : Entries) :
    propertyNodes path entries = match keyword? "properties" entries with
      | some v => tableNodes (path ++ "/properties/") v
      | none => .ok [] := by
  rw [propertyNodes]
  cases keyword? "properties" entries with
  | none => rfl
  | some v => cases v <;> rfl

/-- The members of a composition are those of the value under the keyword, if there is one. -/
theorem classifyMembers_eq (path name : Text) (entries : Entries) :
    classifyMembers path name entries = match Entries.get? name entries with
      | some v => (memberNodes (path ++ "/" ++ name ++ "/") v).map some
      | none => .ok none := by
  cases hfound : Entries.get? name entries with
  | none => exact classifyMembers_of_none hfound
  | some v =>
    by_cases hsequence : ∃ members, v = .sequence members
    · obtain ⟨members, rfl⟩ := hsequence
      exact classifyMembers_of_sequence hfound
    · have hne : ∀ members, v ≠ .sequence members := fun members heq => hsequence ⟨members, heq⟩
      rw [classifyMembers_of_other hfound hne]
      simp only
      rw [memberNodes]
      · split
        · cases itemsOf v <;> rfl
        · rfl
      · exact hne

/-! ## Classifying what has lost siblings -/

/-- Two values in a role from which the classification makes the same. -/
def Role.ClassifiesAlike : Role → Value → Value → Prop
  | schema, v, w => ∀ path, classify path w = classify path v
  | schemas, v, w => ∀ parent, tableNodes parent w = tableNodes parent v
  | members, v, w => ∀ parent, memberNodes parent w = memberNodes parent v
  | whole, v, w => w = v
  | _, _, _ => True

theorem classifyAll_congr {items others : List Value}
    (h : List.Forall₂ Role.schema.ClassifiesAlike items others) (parent : Text) (index : Nat) :
    classifyAll parent index others = classifyAll parent index items := by
  induction h generalizing index with
  | nil => rfl
  | cons hfirst _ ih => rw [classifyAll, classifyAll, hfirst, ih]

/-- Tables of schemas that are classified alike one by one are classified alike. -/
theorem classifyProperties_congr {entries others : Entries}
    (h : EntriesMatch (fun _ => Role.schema.ClassifiesAlike) entries others) (parent : Text) :
    classifyProperties parent others = classifyProperties parent entries := by
  induction h with
  | nil => rfl
  | @cons a b _ _ hfirst _ ih =>
    obtain ⟨key, v⟩ := a
    obtain ⟨key', w⟩ := b
    obtain ⟨rfl, halike⟩ := hfirst
    rw [classifyProperties, classifyProperties, ih]
    simp only [halike _]

section Keywords

variable {entries others : Entries}

/-- The entries of two schemas are read alike and count as true alike. -/
def KeywordsMatch (entries others : Entries) : Prop :=
  EntriesMatch (fun key v w => (Role.schema.entry key).ClassifiesAlike v w ∧
    w.isTruthy = v.isTruthy) entries others

/-- A keyword that counts with everything in it has the same value. -/
theorem KeywordsMatch.get?_eq (h : KeywordsMatch entries others) {key : Text}
    (hwhole : Role.schema.entry (.text key) = .whole) :
    Entries.get? key others = Entries.get? key entries := by
  rcases EntriesMatch.get? h key with ⟨hv, hw⟩ | ⟨v, w, hv, hw, halike, -⟩
  · rw [hv, hw]
  · rw [hwhole] at halike
    rw [hv, hw, show w = v from halike]

/-- A keyword that counts as true does so in both schemas. -/
theorem KeywordsMatch.keyword? (h : KeywordsMatch entries others) (key : Text) :
    (keyword? key entries = none ∧ keyword? key others = none) ∨
      ∃ v w, keyword? key entries = some v ∧ keyword? key others = some w ∧
        (Role.schema.entry (.text key)).ClassifiesAlike v w := by
  rw [Schema.keyword?, Schema.keyword?]
  rcases EntriesMatch.get? h key with ⟨hv, hw⟩ | ⟨v, w, hv, hw, halike, htruthy⟩
  · rw [hv, hw]
    exact Or.inl ⟨rfl, rfl⟩
  · rw [hv, hw, Option.bind_some, Option.bind_some, Value.truthy?, Value.truthy?, htruthy]
    split
    · exact Or.inr ⟨v, w, rfl, rfl, halike⟩
    · exact Or.inl ⟨rfl, rfl⟩

theorem KeywordsMatch.typeOf?_eq (h : KeywordsMatch entries others) :
    typeOf? others = typeOf? entries := by
  rw [typeOf?, typeOf?, h.get?_eq (by decide)]

theorem KeywordsMatch.isObject_eq (h : KeywordsMatch entries others) :
    isObject others = isObject entries := by
  rw [isObject, isObject, h.typeOf?_eq, hasComposition, hasComposition,
    EntriesMatch.hasKey_eq h, EntriesMatch.hasKey_eq h]

theorem KeywordsMatch.simpleNode_eq (h : KeywordsMatch entries others) (path : Text) :
    simpleNode path others = simpleNode path entries := by
  rw [simpleNode, simpleNode, h.typeOf?_eq, h.get?_eq (by decide)]

/-- Both schemas are the same object. -/
theorem KeywordsMatch.classifyObject_eq (h : KeywordsMatch entries others) (path : Text) :
    classifyObject path others = classifyObject path entries := by
  have hproperties : propertyNodes path others = propertyNodes path entries := by
    rw [propertyNodes_eq, propertyNodes_eq]
    rcases h.keyword? "properties" with ⟨hv, hw⟩ | ⟨v, w, hv, hw, halike⟩
    · rw [hv, hw]
    · rw [hv, hw]
      exact halike _
  have hrequired : requiredNames others = requiredNames entries := by
    rw [requiredNames, requiredNames]
    rcases h.keyword? "required" with ⟨hv, hw⟩ | ⟨v, w, hv, hw, halike⟩
    · rw [hv, hw]
    · rw [hv, hw, show w = v from halike]
  have hmembers : ∀ name, Role.schema.entry (.text name) = .members →
      classifyMembers path name others = classifyMembers path name entries := by
    intro name hname
    rw [classifyMembers_eq, classifyMembers_eq]
    rcases EntriesMatch.get? h name with ⟨hv, hw⟩ | ⟨v, w, hv, hw, halike, -⟩
    · rw [hv, hw]
    · rw [hname] at halike
      rw [hv, hw]
      exact congrArg (Except.map some) (halike _)
  rw [Schema.classifyObject_eq, Schema.classifyObject_eq, hproperties, hrequired,
    hmembers "allOf" (by decide), hmembers "oneOf" (by decide)]

/-- Both schemas are classified alike. -/
theorem KeywordsMatch.classifiesAlike (h : KeywordsMatch entries others)
    (label label' : Option Nat) :
    Role.schema.ClassifiesAlike (.mapping label entries) (.mapping label' others) := by
  intro path
  have href : Entries.get? Reference.refKey others = Entries.get? Reference.refKey entries :=
    h.get?_eq (by decide)
  cases hfound : Entries.get? Reference.refKey entries with
  | some target =>
    rw [hfound] at href
    rw [classify_of_ref hfound, classify_of_ref href]
  | none =>
    rw [hfound] at href
    rcases EntriesMatch.get? h "items" with ⟨hv, hw⟩ | ⟨v, w, hv, hw, halike, -⟩
    · cases hobject : isObject entries with
      | true =>
        have hobject' : isObject others = true := h.isObject_eq.trans hobject
        rw [classify_of_isObjectSchema ⟨hfound, hv, hobject⟩,
          classify_of_isObjectSchema ⟨href, hw, hobject'⟩, h.classifyObject_eq]
      | false =>
        have hobject' : isObject others = false := h.isObject_eq.trans hobject
        rw [classify_of_simple hfound hv hobject, classify_of_simple href hw hobject',
          h.simpleNode_eq]
    · rw [classify_of_items hfound hv, classify_of_items href hw]
      exact congrArg (Except.map _) (halike (path ++ "/items"))

end Keywords

section Parts

variable {role : Role}

/-- Sequences of items that are classified alike are classified alike. -/
theorem classifiesAlike_sequence {items others : List Value}
    (h : List.Forall₂ role.item.ClassifiesAlike items others) :
    role.ClassifiesAlike (.sequence items) (.sequence others) := by
  cases role with
  | schema =>
    intro path
    rw [classify_of_not_mapping path (by simp), classify_of_not_mapping path (by simp)]
    rfl
  | members => exact fun parent => classifyAll_congr h parent 0
  | whole =>
    have hequal : List.Forall₂ (· = ·) others items := h.flip
    exact congrArg Value.sequence (List.forall₂_eq_eq_eq ▸ hequal)
  | schemas => exact fun parent => rfl
  | document | components | ignored => exact trivial

/-- Pairs of parts of the same kinds that are classified alike are classified alike. -/
theorem classifiesAlike_pair {first second first' second' : Value}
    (left : role.item.ClassifiesAlike first first')
    (right : role.item.ClassifiesAlike second second') (left_kind : first'.kindName = first.kindName)
    (right_kind : second'.kindName = second.kindName) :
    role.ClassifiesAlike (.pair first second) (.pair first' second') := by
  cases role with
  | schema =>
    intro path
    rw [classify_of_not_mapping path (by simp), classify_of_not_mapping path (by simp)]
    rfl
  | members =>
    -- A pair has no schemas for items, only their kinds are told.
    intro parent
    simp only [memberNodes, itemsOf, Value.isTruthy, Except.map, List.mapIdx_cons, foreignNode,
      left_kind, right_kind]
  | whole => exact congr (congrArg Value.pair left) right
  | schemas => exact fun parent => rfl
  | document | components | ignored => exact trivial

/-- Mappings of values that are classified alike are classified alike. -/
theorem classifiesAlike_mapping {label label' : Option Nat} {entries others : Entries}
    (h : EntriesMatch (fun key v w => (role.entry key).ClassifiesAlike v w ∧
      w.isTruthy = v.isTruthy) entries others) (same_label : role = .whole → label' = label) :
    role.ClassifiesAlike (.mapping label entries) (.mapping label' others) := by
  cases role with
  | schema => exact KeywordsMatch.classifiesAlike h label label'
  | schemas => exact classifyProperties_congr (h.imp fun key v w halike => halike.1)
  | members =>
    -- As members the keys count.
    intro parent
    have hkeys : others.map (fun entry => Value.scalar entry.1)
        = entries.map fun entry => Value.scalar entry.1 := by
      rw [← Function.comp_def Value.scalar Prod.fst, ← List.map_map, ← List.map_map,
        (entriesMatch_iff_zip.1 h).1]
    have htruthy : (Value.mapping label' others).isTruthy = (Value.mapping label entries).isTruthy := by
      cases h <;> rfl
    simp only [memberNodes, itemsOf, htruthy, hkeys]
  | whole =>
    obtain rfl := same_label rfl
    have hequal : List.Forall₂ (· = ·) others entries :=
      (List.Forall₂.imp (fun a b hab => Prod.ext hab.1 hab.2.1) h).flip
    exact congrArg (Value.mapping label') (List.forall₂_eq_eq_eq ▸ hequal)
  | document | components | ignored => exact trivial

end Parts

/-- **Siblings.**  A value in which each mapping stands for itself is classified like the one that has
lost siblings of references. -/
theorem classifiesAlike {rename : Nat → Nat} {role : Role} {v w : Value}
    (h : Pruned rename role v w) (free : v.AliasFree) (free' : w.AliasFree) :
    role.ClassifiesAlike v w := by
  induction h with
  | scalar role s => cases role <;> simp [Role.ClassifiesAlike]
  | @again role loose place number =>
    cases role with
    | schema =>
      intro path
      rw [classify_of_not_mapping path (by simp), classify_of_not_mapping path (by simp)]
      rfl
    | whole => exact absurd rfl loose
    | schemas | members => exact fun parent => rfl
    | document | components | ignored => exact trivial
  | set role members => cases role <;> simp [Role.ClassifiesAlike]
  | sequence length_eq _ ih =>
    rw [Value.aliasFree_sequence_iff] at free free'
    refine classifiesAlike_sequence (List.forall₂_iff_zip.2 ⟨length_eq, fun hmem => ?_⟩)
    exact ih _ _ hmem (free _ (List.of_mem_zip hmem).1) (free' _ (List.of_mem_zip hmem).2)
  | pair left right ihleft ihright =>
    rw [Value.aliasFree_pair_iff] at free free'
    exact classifiesAlike_pair (ihleft free.1 free'.1) (ihright free.2 free'.2) left.kindName_eq
      right.kindName_eq
  | mapping _ keys_eq parts ih =>
    rw [Value.aliasFree_mapping_iff] at free free'
    refine classifiesAlike_mapping (entriesMatch_iff_zip.2 ⟨keys_eq, fun a b hmem => ?_⟩)
      fun _ => free'.1.trans free.1.symm
    exact ⟨ih a b hmem (free.2 _ (List.of_mem_zip hmem).1) (free'.2 _ (List.of_mem_zip hmem).2),
      (parts a b hmem).isTruthy_eq⟩
  | @reference role label entries ref loses found siblings =>
    rcases loses with rfl | rfl
    · intro path
      have hleft : Entries.get? Reference.refKey [(.text Reference.refKey, .text ref)]
          = some (.text ref) := rfl
      rw [classify_of_ref found, classify_of_ref hleft]
    · exact trivial

end SchemaCodecs.Schema
