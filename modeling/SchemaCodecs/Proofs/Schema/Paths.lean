/-
# Paths of nodes

The path of a node is a hash sign with a pointer behind it.  In a document with plain names, which are
texts without slashes and tildes, the pointer leads to the schema that the node comes from.  So nodes at
different places have different paths, and a diagnostic names the place of a schema without a type.

* `IsPlainDocument` : plain names, and compositions that are sequences;
* `SchemaAt`, `LeadsTo` : the schema at a place in a component, and what is found under a path;
* `leadsTo_of_schemaAt` : the path of a place leads to its schema;
* `placeKeys_injective` : a pointer tells the place;
* `exists_isAbout_of_mem_causesOf` : what diagnostics are about;
* `located_of_components` : all of this for the components of a document.
-/
import SchemaCodecs.Proofs.Declaration.Failing
import SchemaCodecs.Proofs.Reference.Selection
import SchemaCodecs.Proofs.Schema.Places

namespace SchemaCodecs

namespace Schema

open Reference

/-! ## Plain names -/

/-- A name that is written in a pointer as it is: a text without slashes and tildes. -/
def IsPlainName (name : Scalar) : Prop :=
  ∃ text, name = .text text ∧ .char '/' ∉ text.toList ∧ .char '~' ∉ text.toList

/-- The entries of an object with plain names of properties and with compositions that are sequences,
unless they are absent. -/
structure IsPlainObject (entries : Entries) : Prop where
  /-- The names of properties are plain. -/
  names : ∀ label properties, keyword? "properties" entries = some (.mapping label properties) →
    ∀ entry ∈ properties, IsPlainName entry.1
  /-- The compositions are sequences. -/
  members : ∀ keyword ∈ compositions, ∀ v, Entries.get? keyword entries = some v →
    v = .null ∨ ∃ items, v = .sequence items

/-- A schema in which all objects are plain. -/
def IsPlainSchema (v : Value) : Prop :=
  ∀ place label entries, StandsAt place (.mapping label entries) v → IsObjectSchema entries →
    IsPlainObject entries

/-- A document in which the component schemas and their names are plain. -/
def IsPlainDocument (document : Value) : Prop :=
  ∀ table, componentSchemas document = .ok table → ∀ entry ∈ table,
    IsPlainName entry.1 ∧ IsPlainSchema entry.2

theorem IsPlainSchema.of_standsAt {place : List Step} {inner outer : Value}
    (h : IsPlainSchema outer) (hplace : StandsAt place inner outer) : IsPlainSchema inner :=
  fun others label entries hinner => h (place ++ others) label entries (hplace.trans hinner)

/-- In a plain schema all members of compositions stand in sequences. -/
theorem IsPlainSchema.not_hasLooseMembers {v : Value} (h : IsPlainSchema v) :
    ¬ HasLooseMembers v := by
  rintro ⟨place, label, entries, keyword, members, hplace, object, known, hget, hnull, hloose⟩
  obtain rfl | ⟨items, rfl⟩ := (h place label entries hplace object).members keyword known _ hget
  · exact hnull rfl
  · exact hloose items rfl

section Mappings

variable {label : Option Nat} {entries : Entries}

/-- An array is a plain schema if the schema of its items is plain. -/
theorem isPlainSchema_of_items {items : Value} (found : Entries.get? "items" entries = some items)
    (h : IsPlainSchema items) : IsPlainSchema (.mapping label entries) := by
  have hno : ¬ IsObjectSchema entries := fun object => by
    cases object.single.symm.trans found
  intro place own others hplace object
  cases hplace with
  | here => exact absurd object hno
  | items _ hfound hinner =>
    cases found.symm.trans hfound
    exact h _ own others hinner object
  | property outer | member outer => exact absurd outer hno

/-- A mapping without items is a plain schema if its properties and members are plain, and so are the
schemas under them. -/
theorem isPlainSchema_of_single (single : Entries.get? "items" entries = none)
    (plain : IsPlainObject entries)
    (properties : ∀ label properties,
      keyword? "properties" entries = some (.mapping label properties) →
        ∀ entry ∈ properties, IsPlainSchema entry.2)
    (members : ∀ keyword ∈ compositions, ∀ items,
      Entries.get? keyword entries = some (.sequence items) → ∀ item ∈ items, IsPlainSchema item) :
    IsPlainSchema (.mapping label entries) := by
  intro place own others hplace object
  cases hplace with
  | here => exact plain
  | items _ found => cases single.symm.trans found
  | property _ found mem hinner => exact properties _ _ found _ mem _ own others hinner object
  | member _ known found mem hinner =>
    exact members _ known _ found _ (List.mem_of_getElem? mem) _ own others hinner object

/-- A mapping without the keywords that lead to other schemas is plain. -/
theorem isPlainSchema_of_hasKey (h : ∀ keyword ∈ ("items" : Text) :: "properties" :: compositions,
    Entries.hasKey keyword entries = false) : IsPlainSchema (.mapping label entries) := by
  have hnone : ∀ keyword ∈ ("items" : Text) :: "properties" :: compositions,
      Entries.get? keyword entries = none := fun keyword known =>
    Option.isNone_iff_eq_none.1 (by rw [← Option.not_isSome, ← Entries.hasKey, h keyword known]; rfl)
  have hproperties : keyword? "properties" entries = none := by
    rw [keyword?, hnone "properties" (by simp)]
    rfl
  have hmembers : ∀ keyword ∈ compositions, ∀ v, Entries.get? keyword entries ≠ some v := by
    intro keyword known v hv
    cases (hnone keyword (by simp [known])).symm.trans hv
  refine isPlainSchema_of_single (hnone "items" (by simp)) ⟨?_, ?_⟩ ?_ ?_
  · simp [hproperties]
  · exact fun keyword known v hv => absurd hv (hmembers keyword known v)
  · simp [hproperties]
  · exact fun keyword known items hv => absurd hv (hmembers keyword known _)

end Mappings

/-! ## Keys of places -/

/-- The keys by which a pointer goes one step. -/
def Step.keys : Step → List Text
  | items => ["items"]
  | property name => ["properties", name.display]
  | member keyword index => [keyword, Text.numeral index]

/-- The keys by which a pointer goes to a place. -/
def placeKeys (place : List Step) : List Text :=
  place.flatMap Step.keys

/-- A step that can be read off its keys. -/
def Step.IsPlain : Step → Prop
  | items => True
  | property name => IsPlainName name
  | member keyword _ => keyword ∈ compositions

/-- The steps to the places in a plain schema are plain. -/
theorem isPlain_of_standsAt {place : List Step} {schema v : Value} (h : StandsAt place schema v)
    (plain : IsPlainSchema v) : ∀ step ∈ place, step.IsPlain := by
  induction h with
  | here => exact fun _ hstep => absurd hstep List.not_mem_nil
  | items unref found _ ih =>
    have hinner := plain.of_standsAt (.items unref found (.here _))
    exact List.forall_mem_cons.2 ⟨trivial, ih hinner⟩
  | property object found mem _ ih =>
    have hname := (plain _ _ _ (.here _) object).names _ _ found _ mem
    have hinner := plain.of_standsAt (.property object found mem (.here _))
    exact List.forall_mem_cons.2 ⟨hname, ih hinner⟩
  | member object known found mem _ ih =>
    have hinner := plain.of_standsAt (.member object known found mem (.here _))
    exact List.forall_mem_cons.2 ⟨known, ih hinner⟩

/-- The keys of a plain place select the schema that stands there. -/
theorem selects_of_standsAt {place : List Step} {schema v : Value} (h : StandsAt place schema v)
    (plain : ∀ step ∈ place, step.IsPlain) : Selects (placeKeys place) v schema := by
  induction h with
  | here => exact .here _
  | items _ found _ ih =>
    exact .member (Value.mem_of_get? found) (ih (List.forall_mem_cons.1 plain).2)
  | property _ found mem _ ih =>
    obtain ⟨⟨text, rfl, -⟩, hplace⟩ := List.forall_mem_cons.1 plain
    exact .member (Value.mem_of_get? (get?_of_keyword? found)) (.member mem (ih hplace))
  | member _ _ found mem _ ih =>
    exact .member (Value.mem_of_get? found) (.item mem (ih (List.forall_mem_cons.1 plain).2))

/-- The keys of a plain step tell the step, and where they end. -/
theorem Step.keys_cut {step other : Step} {keys rest : List Text} (hstep : step.IsPlain)
    (hother : other.IsPlain) (h : step.keys ++ keys = other.keys ++ rest) :
    step = other ∧ keys = rest := by
  have hitems : ("items" : Text) ∉ compositions := by decide
  have hproperties : ("properties" : Text) ∉ compositions := by decide
  -- The first key tells the kind of step.
  obtain ⟨hfirst, hbehind⟩ : step.keys.head? = other.keys.head? ∧
      step.keys.tail ++ keys = other.keys.tail ++ rest := by
    cases step <;> cases other <;> exact ⟨(congrArg List.head? h :), (congrArg List.tail h :)⟩
  cases step with
  | items =>
    cases other with
    | items => exact ⟨rfl, hbehind⟩
    | property => exact absurd (Option.some.inj hfirst) (by decide)
    | member => exact absurd (Option.some.inj hfirst ▸ hother) hitems
  | property name =>
    cases other with
    | items => exact absurd (Option.some.inj hfirst) (by decide)
    | property name' =>
      obtain ⟨text, rfl, -⟩ := hstep
      obtain ⟨text', rfl, -⟩ := hother
      obtain ⟨rfl, hrest⟩ := List.cons.inj hbehind
      exact ⟨rfl, hrest⟩
    | member => exact absurd (Option.some.inj hfirst ▸ hother) hproperties
  | member keyword index =>
    cases other with
    | items => exact absurd (Option.some.inj hfirst ▸ hstep) hitems
    | property => exact absurd (Option.some.inj hfirst ▸ hstep) hproperties
    | member keyword' index' =>
      obtain rfl := Option.some.inj hfirst
      obtain ⟨hindex, hrest⟩ := List.cons.inj hbehind
      obtain rfl := Number.numeral_injective hindex
      exact ⟨rfl, hrest⟩

/-- **Places.**  The keys of a plain place tell the place. -/
theorem placeKeys_injective {place other : List Step} (hplace : ∀ step ∈ place, step.IsPlain)
    (hother : ∀ step ∈ other, step.IsPlain) (h : placeKeys place = placeKeys other) :
    place = other := by
  induction place generalizing other with
  | nil =>
    cases other with
    | nil => rfl
    | cons step _ => cases step <;> cases h
  | cons step place ih =>
    cases other with
    | nil => cases step <;> cases h
    | cons step' other =>
      obtain ⟨hstep, hinside⟩ := List.forall_mem_cons.1 hplace
      obtain ⟨hstep', hinside'⟩ := List.forall_mem_cons.1 hother
      rw [placeKeys, placeKeys, List.flatMap_cons, List.flatMap_cons] at h
      obtain ⟨rfl, hrest⟩ := Step.keys_cut hstep hstep' h
      exact congrArg (step :: ·) (ih hinside hinside' hrest)

/-! ## Pointers to places -/

theorem notMem_numeral (n : Nat) :
    .char '/' ∉ (Text.numeral n).toList ∧ .char '~' ∉ (Text.numeral n).toList :=
  ⟨fun h => absurd (Number.isDigit_of_mem_numeral h) (by decide),
    fun h => absurd (Number.isDigit_of_mem_numeral h) (by decide)⟩

/-- A plain step is written as its keys. -/
theorem Step.writes {step : Step} (hstep : step.IsPlain) {keys : List Text} {pointer : List Point}
    (h : Writes keys pointer) : Writes (step.keys ++ keys) (step.text.toList ++ pointer) := by
  cases step with
  | items => exact .plain (by decide) (by decide) h
  | property name =>
    obtain ⟨text, rfl, slash, tilde⟩ := hstep
    have htext : (Step.property (.text text)).text.toList ++ pointer
        = .char '/' :: (("properties" : Text).toList ++ .char '/' :: (text.toList ++ pointer)) := by
      rw [Step.text, Text.toList_append, List.append_assoc]
      rfl
    rw [htext]
    exact .plain (by decide) (by decide) (.plain tilde slash h)
  | member keyword index =>
    obtain ⟨slash, tilde⟩ := notMem_numeral index
    have htext : (Step.member keyword index).text.toList ++ pointer
        = .char '/' :: (keyword.toList ++ .char '/' :: ((Text.numeral index).toList ++ pointer)) := by
      simp only [Step.text, Text.toList_append, List.append_assoc]
      rfl
    have hkeyword : ∀ keyword ∈ compositions,
        .char '~' ∉ keyword.toList ∧ .char '/' ∉ keyword.toList := by
      decide
    rw [htext]
    exact .plain (hkeyword _ hstep).1 (hkeyword _ hstep).2 (.plain tilde slash h)

/-- A plain place is written as its keys. -/
theorem writes_place {place : List Step} (h : ∀ step ∈ place, step.IsPlain) :
    Writes (placeKeys place) (placeText place).toList := by
  induction place with
  | nil => exact .nil
  | cons step place ih =>
    obtain ⟨hstep, hplace⟩ := List.forall_mem_cons.1 h
    rw [placeKeys, List.flatMap_cons, placeText, Text.toList_append]
    exact Step.writes hstep (ih hplace)

/-- The path of a place in a component is a hash sign with a pointer that spells the keys to the
place. -/
theorem exists_pointer {name : Text} {place : List Step} (slash : .char '/' ∉ name.toList)
    (tilde : .char '~' ∉ name.toList) (plain : ∀ step ∈ place, step.IsPlain) :
    ∃ pointer, toSchema name ++ placeText place = "#" ++ pointer ∧
      Writes ("components" :: "schemas" :: name :: placeKeys place) pointer.toList ∧
        ¬ [.char '/', .char '/'] <+: pointer.toList := by
  have hchars : ("/components/schemas/" ++ name ++ placeText place).toList
      = .char '/' :: (("components" : Text).toList ++ .char '/' :: (("schemas" : Text).toList ++
          .char '/' :: (name.toList ++ (placeText place).toList))) := by
    simp only [Text.toList_append, List.append_assoc]
    rfl
  refine ⟨"/components/schemas/" ++ name ++ placeText place, ?_, ?_, ?_⟩
  · have hpath : schemasPath ++ "/" = "#" ++ "/components/schemas/" := rfl
    rw [toSchema, hpath, Text.append_assoc, Text.append_assoc, Text.append_assoc]
  · rw [hchars]
    exact .plain (by decide) (by decide) (.plain (by decide) (by decide)
      (.plain tilde slash (writes_place plain)))
  · rw [hchars]
    rintro ⟨rest, hrest⟩
    exact absurd (List.cons.inj (List.cons.inj hrest).2).1 (by decide)

/-! ## Schemas of components -/

/-- A schema stands at a place in a component schema of a document. -/
def SchemaAt (document : Value) (name : Scalar) (place : List Step) (schema : Value) : Prop :=
  ∃ table raw, componentSchemas document = .ok table ∧ (name, raw) ∈ table ∧
    StandsAt place schema raw

/-- A path is a hash sign with a pointer behind it, and following the pointer gives a schema. -/
def LeadsTo (document : Value) (path : Text) (schema : Value) : Prop :=
  ∃ pointer, path = "#" ++ pointer ∧ ∀ ref, resolvePointer document pointer ref = .ok schema

/-- A path leads to one schema. -/
theorem LeadsTo.unique {document first second : Value} {path : Text}
    (hfirst : LeadsTo document path first) (hsecond : LeadsTo document path second) :
    first = second := by
  obtain ⟨pointer, rfl, hpointer⟩ := hfirst
  obtain ⟨other, hother, hsecond⟩ := hsecond
  obtain rfl := (Text.append_right_inj "#").1 hother
  exact Except.ok.inj ((hpointer "").symm.trans (hsecond ""))

/-- An entry of a table is found under the key of the table. -/
theorem mem_of_mem_tableAt {key : Text} {entries table : Entries} {entry : Scalar × Value}
    (h : tableAt key entries = .ok table) (hentry : entry ∈ table) :
    ∃ label, (.text key, .mapping label table) ∈ entries := by
  unfold tableAt at h
  split at h
  · cases h
    cases hentry
  · next label found hfound =>
    cases h
    exact ⟨label, Value.mem_of_get? (get?_of_keyword? hfound)⟩
  · cases h

/-- A component schema is selected by the keys of its table and by its name. -/
theorem selects_of_componentSchemas {document raw : Value} {table : Entries} {name : Text}
    (htable : componentSchemas document = .ok table) (mem : (.text name, raw) ∈ table) :
    Selects ["components", "schemas", name] document raw := by
  cases document with
  | mapping label entries =>
    obtain ⟨components, hcomponents, hschemas⟩ := (bind_eq_ok_iff _ _ _).1 htable
    obtain ⟨_, hinner⟩ := mem_of_mem_tableAt hschemas mem
    obtain ⟨_, houter⟩ := mem_of_mem_tableAt hcomponents hinner
    exact .member houter (.member hinner (.member mem (.here raw)))
  | _ => cases htable

section Documents

variable {document : Value} {found : List Component} (plain : IsPlainDocument document)

include plain

theorem SchemaAt.isPlain {name : Scalar} {place : List Step} {schema : Value}
    (h : SchemaAt document name place schema) :
    IsPlainName name ∧ ∀ step ∈ place, step.IsPlain := by
  obtain ⟨table, raw, htable, mem, hplace⟩ := h
  obtain ⟨hname, hraw⟩ := plain table htable _ mem
  exact ⟨hname, isPlain_of_standsAt hplace hraw⟩

/-- Different names or places have different paths. -/
theorem SchemaAt.path_injective {name other : Scalar} {place place' : List Step}
    {schema schema' : Value} (h : SchemaAt document name place schema)
    (h' : SchemaAt document other place' schema')
    (same : toSchema name.display ++ placeText place = toSchema other.display ++ placeText place') :
    name = other ∧ place = place' := by
  obtain ⟨⟨text, rfl, slash, tilde⟩, hplace⟩ := h.isPlain plain
  obtain ⟨⟨text', rfl, slash', tilde'⟩, hplace'⟩ := h'.isPlain plain
  obtain ⟨pointer, hpointer, written, -⟩ := exists_pointer slash tilde hplace
  obtain ⟨pointer', hpointer', written', -⟩ := exists_pointer slash' tilde' hplace'
  -- Both paths are one pointer, and a pointer tells its keys.
  have hsame : "#" ++ pointer = "#" ++ pointer' := hpointer.symm.trans (same.trans hpointer')
  obtain rfl := (Text.append_right_inj "#").1 hsame
  have hkeys := written.unique written'
  simp only [List.cons.injEq, true_and] at hkeys
  obtain ⟨rfl, hkeys⟩ := hkeys
  exact ⟨rfl, placeKeys_injective hplace hplace' hkeys⟩

/-- A node inside a component comes from the schema at the same place, and its path tells this place. -/
theorem schemaAt_of_nodeAt (classified : components document = .ok found) {component : Component}
    (mem : component ∈ found) {place : List Step} {node : Node}
    (h : NodeAt place node component.body) :
    node.path = toSchema component.name.display ++ placeText place ∧
      ∃ schema, SchemaAt document component.name place schema ∧
        classify node.path schema = .ok node := by
  obtain ⟨table, raw, htable, hraw, hbody⟩ := exists_entry_of_component classified mem
  have hplain := (plain table htable _ hraw).2
  obtain ⟨schema, hplace, hschema⟩ | ⟨-, hloose⟩ := comesFrom_of_nodeAt h hbody
  · have hpath := path_of_classify hschema
    exact ⟨hpath, schema, ⟨table, raw, htable, hraw, hplace⟩, hpath.symm ▸ hschema⟩
  · exact absurd hloose hplain.not_hasLooseMembers

variable (distinct : document.Distinct) (addressable : IsAddressable document)

include distinct addressable

/-- **Places.**  The path of a place in a component leads to the schema that stands there. -/
theorem leadsTo_of_schemaAt {name : Scalar} {place : List Step} {schema : Value}
    (h : SchemaAt document name place schema) :
    LeadsTo document (toSchema name.display ++ placeText place) schema := by
  obtain ⟨⟨text, rfl, slash, tilde⟩, hplace⟩ := h.isPlain plain
  obtain ⟨table, raw, htable, mem, hstands⟩ := h
  obtain ⟨pointer, hpointer, written, single⟩ := exists_pointer slash tilde hplace
  have hselects := (selects_of_componentSchemas htable mem).append
    (selects_of_standsAt hstands hplace)
  exact ⟨pointer, hpointer, resolvePointer_of_selects written single distinct addressable hselects⟩

variable (classified : components document = .ok found) {component other : Component}
  {place place' : List Step} {node node' : Node}

include classified

/-- **Nodes.**  The path of a node inside a component leads to the schema that it comes from, which is
the only one at its place. -/
theorem exists_leadsTo_of_nodeAt (mem : component ∈ found) (h : NodeAt place node component.body) :
    ∃ schema, (∀ raw, SchemaAt document component.name place raw ↔ raw = schema) ∧
      classify node.path schema = .ok node ∧ LeadsTo document node.path schema := by
  obtain ⟨hpath, schema, hat, hschema⟩ := schemaAt_of_nodeAt plain classified mem h
  have hleads : ∀ raw, SchemaAt document component.name place raw →
      LeadsTo document node.path raw := fun raw hraw =>
    hpath ▸ leadsTo_of_schemaAt plain distinct addressable hraw
  refine ⟨schema, fun raw => ⟨fun hraw => ?_, fun heq => heq ▸ hat⟩, hschema, hleads schema hat⟩
  exact (hleads raw hraw).unique (hleads schema hat)

/-- Nodes with one path are one node. -/
theorem node_eq_of_path (mem : component ∈ found) (mem' : other ∈ found)
    (h : NodeAt place node component.body) (h' : NodeAt place' node' other.body)
    (same : node.path = node'.path) : node = node' := by
  obtain ⟨schema, -, hschema, hleads⟩ :=
    exists_leadsTo_of_nodeAt plain distinct addressable classified mem h
  obtain ⟨schema', -, hschema', hleads'⟩ :=
    exists_leadsTo_of_nodeAt plain distinct addressable classified mem' h'
  rw [same] at hschema hleads
  obtain rfl := hleads.unique hleads'
  exact Except.ok.inj (hschema.symm.trans hschema')

/-- Nodes with one path stand at one place in one component. -/
theorem place_eq_of_path (mem : component ∈ found) (mem' : other ∈ found)
    (h : NodeAt place node component.body) (h' : NodeAt place' node' other.body)
    (same : node.path = node'.path) : component = other ∧ place = place' := by
  obtain ⟨hpath, _, hat, -⟩ := schemaAt_of_nodeAt plain classified mem h
  obtain ⟨hpath', _, hat', -⟩ := schemaAt_of_nodeAt plain classified mem' h'
  obtain ⟨hname, hplace⟩ := hat.path_injective plain hat' (hpath.symm.trans (same.trans hpath'))
  -- Components of one name have one path, so they have one node.
  have hbody : component.body = other.body := by
    refine node_eq_of_path plain distinct addressable classified mem mem' (.here _) (.here _) ?_
    rw [(schemaAt_of_nodeAt plain classified mem (.here _)).1,
      (schemaAt_of_nodeAt plain classified mem' (.here _)).1, hname]
  obtain ⟨name, body⟩ := component
  obtain ⟨name', body'⟩ := other
  cases hname
  cases hbody
  exact ⟨rfl, hplace⟩

end Documents

/-! ## Diagnostics -/

namespace Node

/-- The node that the items of arrays lead to is inside. -/
theorem exists_nodeAt_innermost : ∀ node : Node, ∃ place, NodeAt place node.innermost node
  | .array _ (some items) => by
    obtain ⟨place, hplace⟩ := exists_nodeAt_innermost items
    exact ⟨_, .items hplace⟩
  | .array _ none | .reference _ _ | .object _ _ _ _ _ | .primitive _ _ | .string _ _
  | .unclassified _ _ | .bare _ => ⟨[], .here _⟩

/-- What the items of a node in use lead to is inside. -/
theorem exists_nodeAt_of_uses {node part : Node} (h : node.Uses part) :
    ∃ place, NodeAt place part.innermost node := by
  induction h with
  | here node => exact exists_nodeAt_innermost node
  | items _ ih =>
    obtain ⟨place, hplace⟩ := ih
    exact ⟨_, .items hplace⟩
  | property mem _ ih =>
    obtain ⟨place, hplace⟩ := ih
    exact ⟨_, .property mem hplace⟩
  | @member _ _ _ allOf oneOf _ _ mem _ ih =>
    obtain ⟨place, hplace⟩ := ih
    obtain ⟨index, hindex⟩ := List.mem_iff_getElem?.1 mem
    cases allOf with
    | some members => exact ⟨_, .allOf hindex hplace⟩
    | none =>
      cases oneOf with
      | some members => exact ⟨_, .oneOf hindex hplace⟩
      | none => cases hindex

/-- The reason of a node names its path. -/
theorem path_of_ownFailure? {node : Node} {cause : Unsupported} (h : node.ownFailure? = some cause) :
    cause.path = node.path := by
  unfold ownFailure? at h
  split at h
  · cases h
    rfl
  · split at h <;> cases h
    rfl
  · cases h
    rfl
  · cases h
    rfl
  · cases h

end Node

/-- A reason is about a node at a place in a component: the node has no type for this reason, or it is
the whole schema of the component and cannot be declared. -/
structure IsAbout (component : Component) (place : List Step) (node : Node) (cause : Unsupported) :
    Prop where
  /-- The node is inside the component. -/
  inside : NodeAt place node component.body
  /-- The reason names its path. -/
  path_eq : cause.path = node.path
  /-- The node is at fault. -/
  fault : node.ownFailure? = some cause ∨ place = [] ∧ node.isDeclarable = false

/-- **Reasons.**  Every reason noted for a component is about a node inside it. -/
theorem exists_isAbout_of_mem_causesOf {config : Config} {component : Component}
    {cause : Unsupported} (h : cause ∈ causesOf (Declaration.noticesOn config component)) :
    ∃ place node, IsAbout component place node cause := by
  rw [Declaration.noticesOn] at h
  split at h
  · cases h
  cases hdeclarable : component.body.isDeclarable with
  | false =>
    obtain ⟨reason, hnotices⟩ :=
      @Declaration.buildNotices_of_not_isDeclarable config component hdeclarable
    rw [hnotices] at h
    obtain rfl := List.mem_singleton.1 h
    exact ⟨[], component.body, .here _, rfl, Or.inr ⟨rfl, hdeclarable⟩⟩
  | true =>
    rw [Declaration.mem_causesOf_buildNotices hdeclarable, Node.reports_iff] at h
    obtain ⟨part, huses, hcause⟩ := h
    have hown : part.innermost.ownFailure? = some cause := (Node.resolve_eq_error_iff _ _).1 hcause
    obtain ⟨place, hplace⟩ := Node.exists_nodeAt_of_uses huses
    exact ⟨place, part.innermost, hplace, Node.path_of_ownFailure? hown, Or.inl hown⟩

/-- **Paths.**  In a plain document that can be classified, the path of every node inside a component
leads to the schema that the node was classified from.  Nodes at different places have different paths.
The path of every diagnostic about a schema without a supported shape leads to this schema, whether or
not the building of declarations comes to an end. -/
theorem located_of_components {document : Value} (distinct : document.Distinct)
    (addressable : IsAddressable document) (plain : IsPlainDocument document)
    {found : List Component} (classified : components document = .ok found) :
    (∀ component ∈ found, ∀ place node, NodeAt place node component.body →
      ∃ schema, (∀ raw, SchemaAt document component.name place raw ↔ raw = schema) ∧
        classify node.path schema = .ok node ∧ LeadsTo document node.path schema) ∧
    (∀ component ∈ found, ∀ other ∈ found, ∀ place place' node node',
      NodeAt place node component.body → NodeAt place' node' other.body → node.path = node'.path →
        component = other ∧ place = place' ∧ node = node') ∧
    ∀ config, ∀ notice ∈ (Declaration.buildAll config found).trace, ∀ diagnostic,
      notice.diagnostic? = some diagnostic → ∃ component ∈ found, ∃ place node cause schema,
        IsAbout component place node cause ∧
          diagnostic = ⟨.unsupportedShape, cause.reason, cause.path⟩ ∧
            SchemaAt document component.name place schema ∧
              LeadsTo document diagnostic.path schema := by
  refine ⟨fun component mem place node h => ?_,
    fun component mem other mem' place place' node node' h h' same => ?_,
    fun config notice hnotice diagnostic hdiagnostic => ?_⟩
  · exact exists_leadsTo_of_nodeAt plain distinct addressable classified mem h
  · obtain ⟨hcomponent, hplace⟩ :=
      place_eq_of_path plain distinct addressable classified mem mem' h h' same
    exact ⟨hcomponent, hplace,
      node_eq_of_path plain distinct addressable classified mem mem' h h' same⟩
  · obtain ⟨component, mem, hnoted⟩ := Declaration.exists_component_of_mem_trace hnotice
    obtain ⟨cause, hcause, rfl⟩ := Option.map_eq_some_iff.1 hdiagnostic
    obtain ⟨place, node, about⟩ :=
      exists_isAbout_of_mem_causesOf (List.mem_filterMap.2 ⟨notice, hnoted, hcause⟩)
    obtain ⟨schema, honly, -, hleads⟩ :=
      exists_leadsTo_of_nodeAt plain distinct addressable classified mem about.inside
    rw [← about.path_eq] at hleads
    exact ⟨component, mem, place, node, cause, schema, about, rfl, (honly schema).2 rfl, hleads⟩

/-! ## A property without a name -/

namespace Toybox

/-- What is known about a toy: nothing. -/
def toy : Value :=
  .table []

/-- A text. -/
def label : Value :=
  .table [(.text "type", .text "string")]

/-- The toys in a box. -/
def toys : Value :=
  .table [(.text "items", toy)]

/-- A box: the toys are its property without a name, and it is open or has a label. -/
def box : Value :=
  .table [(.text "properties", .table [(.text "", toys)]),
    (.text "oneOf", .sequence [label]), (.text "allOf", .null)]

/-- The document. -/
def plan : Value :=
  .table [(.text "components", .table [(.text "schemas", .table [(.text "Box", box)])])]

/-- The node of the toys. -/
def toyNode : Node :=
  .unclassified "#/components/schemas/Box/properties//items"
    "no type, items, $ref or composition keyword"

/-- The only component. -/
def component : Component where
  name := .text "Box"
  body := .object "#/components/schemas/Box"
    [(.text "", .array "#/components/schemas/Box/properties/" (some toyNode))] [] (some [])
    (some [.string "#/components/schemas/Box/oneOf/0" none])

/-- The box is classified. -/
theorem classify_box : classify "#/components/schemas/Box" box = .ok component.body := by
  have htoy : classify "#/components/schemas/Box/properties//items" toy = .ok toyNode :=
    classify_eq_ok_iff.2 (.simple rfl rfl rfl rfl)
  have htoys : classify "#/components/schemas/Box/properties/" toys
      = .ok (.array "#/components/schemas/Box/properties/" (some toyNode)) :=
    classify_eq_ok_iff.2 (.array rfl rfl htoy)
  have hlabel : classify "#/components/schemas/Box/oneOf/0" label
      = .ok (.string "#/components/schemas/Box/oneOf/0" none) :=
    classify_eq_ok_iff.2 (.simple rfl rfl rfl rfl)
  have hlabels : classifyAll "#/components/schemas/Box/oneOf/" 0 [label]
      = .ok [.string "#/components/schemas/Box/oneOf/0" none] :=
    (classifyAll_eq_ok_iff _ _ _ _).2 (.cons hlabel .nil)
  have hnull : ∀ members, Value.null ≠ .sequence members := by rintro _ ⟨⟩
  refine classify_eq_ok_iff.2 (.object ⟨rfl, rfl, rfl⟩ ?_ rfl ?_ ?_)
  · exact (classifyProperties_eq_ok_iff _ _ _).2 (.cons ⟨rfl, rfl, htoys⟩ .nil)
  · exact classifyMembers_of_other rfl hnull
  · exact (classifyMembers_of_sequence rfl).trans (congrArg (Except.map some) hlabels)

theorem components_plan : components plan = .ok [component] :=
  (components_eq_ok_iff _ _).2 ⟨_, rfl, .cons ⟨rfl, rfl, classify_box⟩ .nil⟩

/-- No key of the document is repeated. -/
theorem distinct_plan : plan.Distinct := by
  have hproperties : (Value.table [(.text "", toys)]).Distinct :=
    .single (.single (.mapping .nil (List.forall_mem_nil _)))
  have halternatives : (Value.sequence [label]).Distinct :=
    .sequence (List.forall_mem_singleton.2 (.single (.scalar _)))
  have hbox : box.Distinct := by
    refine .mapping (by unfold Value.KeysApart; decide) ?_
    exact List.forall_mem_cons.2 ⟨hproperties,
      List.forall_mem_cons.2 ⟨halternatives, List.forall_mem_singleton.2 (.scalar _)⟩⟩
  exact .single (.single (.single hbox))

/-- Its only sequence is short. -/
theorem isAddressable_plan : IsAddressable plan := by
  have hproperties : IsAddressable (.table [(.text "", toys)]) :=
    isAddressable_single (isAddressable_single (isAddressable_mapping (List.forall_mem_nil _)))
  have halternatives : IsAddressable (.sequence [label]) :=
    isAddressable_sequence (le_places (by decide))
      (List.forall_mem_singleton.2 (isAddressable_single (isAddressable_scalar _)))
  have hbox : IsAddressable box :=
    isAddressable_mapping (List.forall_mem_cons.2 ⟨hproperties,
      List.forall_mem_cons.2 ⟨halternatives,
        List.forall_mem_singleton.2 (isAddressable_scalar _)⟩⟩)
  exact isAddressable_single (isAddressable_single (isAddressable_single hbox))

/-- The box is plain. -/
theorem isPlainSchema_box : IsPlainSchema box := by
  have htoys : IsPlainSchema toys := by
    have htoy : IsPlainSchema toy := isPlainSchema_of_hasKey (by decide)
    exact isPlainSchema_of_items rfl htoy
  have hlabel : IsPlainSchema label := isPlainSchema_of_hasKey (by decide)
  have hname : IsPlainName (.text "") := ⟨"", rfl, by decide, by decide⟩
  refine isPlainSchema_of_single rfl ⟨?_, ?_⟩ ?_ ?_
  · rintro _ _ ⟨⟩
    exact List.forall_mem_singleton.2 hname
  · refine List.forall_mem_cons.2 ⟨?_, List.forall_mem_singleton.2 ?_⟩
    · rintro _ ⟨⟩
      exact Or.inl rfl
    · rintro _ ⟨⟩
      exact Or.inr ⟨_, rfl⟩
  · rintro _ _ ⟨⟩
    exact List.forall_mem_singleton.2 htoys
  · refine List.forall_mem_cons.2 ⟨?_, List.forall_mem_singleton.2 ?_⟩
    · rintro _ ⟨⟩
    · rintro _ ⟨⟩
      exact List.forall_mem_singleton.2 hlabel

theorem isPlainDocument_plan : IsPlainDocument plan := by
  rintro _ ⟨⟩
  exact List.forall_mem_singleton.2 ⟨⟨"Box", rfl, by decide, by decide⟩, isPlainSchema_box⟩

/-- The path of the toys leads to them. -/
theorem located_toy : plan.Distinct ∧ IsAddressable plan ∧ IsPlainDocument plan ∧
    components plan = .ok [component] ∧
    NodeAt [.property (.text ""), .items] toyNode component.body ∧
    LeadsTo plan "#/components/schemas/Box/properties//items" toy := by
  have hmain := located_of_components distinct_plan isAddressable_plan isPlainDocument_plan
    components_plan
  have hinside : NodeAt [.property (.text ""), .items] toyNode component.body :=
    .property List.mem_cons_self (.items (.here _))
  obtain ⟨schema, honly, -, hleads⟩ := hmain.1 component List.mem_cons_self _ _ hinside
  have hplace : StandsAt [.property (.text ""), .items] toy box :=
    .property ⟨rfl, rfl, rfl⟩ rfl List.mem_cons_self (.items rfl rfl (.here _))
  obtain rfl : toy = schema := (honly toy).1 ⟨_, box, rfl, List.mem_cons_self, hplace⟩
  exact ⟨distinct_plan, isAddressable_plan, isPlainDocument_plan, components_plan, hinside, hleads⟩

end Toybox

end Schema

end SchemaCodecs
