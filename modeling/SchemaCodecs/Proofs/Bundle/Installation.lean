/-
# Installed schemas

After bundling, each gathered schema is a component schema of the document under its name.  Its
value is the relocated source, unless the root document has a schema of that name which says more
than a reference to itself; such a schema stays, and the source is the same as it.

* `componentSchema?` : the component schema of a name;
* `installed` : what stands under the name of a gathered schema;
* `componentSchema?_of_bundle` : bundling puts it there.
-/
import SchemaCodecs.Proofs.Bundle.Agreement
import SchemaCodecs.Proofs.Value.Entries

namespace SchemaCodecs

/-! ## Component schemas -/

namespace Value

/-- The value under a key, if there is a mapping with this key. -/
def under? (key : Text) : Value → Option Value
  | mapping _ entries => Entries.get? key entries
  | _ => none

/-- What stands under a key of a value without repetitions has none. -/
theorem Distinct.under {key : Text} {v part : Value} (h : v.Distinct)
    (hpart : v.under? key = some part) : part.Distinct := by
  cases h with
  | mapping _ parts =>
    obtain ⟨entry, hentry, -, rfl⟩ := exists_entry_of_lookup hpart
    exact parts entry hentry
  | _ => cases hpart

@[simp] theorem under?_unlabelled (key : Text) (v : Value) :
    v.unlabelled.under? key = (v.under? key).map unlabelled := by
  cases v with
  | mapping label entries => exact get?_unlabelledEntries key entries
  | _ => simp [unlabelled, under?]

end Value

/-- The component schema of a name in a document. -/
def componentSchema? (document : Value) (name : Text) : Option Value :=
  ((document.under? componentsKey).bind (Value.under? schemasKey)).bind (Value.under? name)

/-- It stands in the table of schemas. -/
theorem componentSchema?_eq_some_iff {document schema : Value} {name : Text} :
    componentSchema? document name = some schema ↔ ∃ components schemas,
      document.under? componentsKey = some components ∧
        components.under? schemasKey = some schemas ∧ schemas.under? name = some schema := by
  simp only [componentSchema?, Option.bind_eq_some_iff]
  constructor
  · rintro ⟨schemas, ⟨components, hcomponents, hschemas⟩, hschema⟩
    exact ⟨components, schemas, hcomponents, hschemas, hschema⟩
  · rintro ⟨components, schemas, hcomponents, hschemas, hschema⟩
    exact ⟨schemas, ⟨components, hcomponents, hschemas⟩, hschema⟩

/-- Component schemas of a value without repetitions have none. -/
theorem Value.Distinct.componentSchema {document schema : Value} {name : Text}
    (h : document.Distinct) (hschema : componentSchema? document name = some schema) :
    schema.Distinct := by
  obtain ⟨components, schemas, hcomponents, hschemas, hschema⟩ :=
    componentSchema?_eq_some_iff.1 hschema
  exact ((h.under hcomponents).under hschemas).under hschema

@[simp] theorem componentSchema?_unlabelled (document : Value) (name : Text) :
    componentSchema? document.unlabelled name
      = (componentSchema? document name).map Value.unlabelled := by
  unfold componentSchema?
  rw [Value.under?_unlabelled]
  cases document.under? componentsKey with
  | none => rfl
  | some components =>
    simp only [Option.map_some, Option.bind_some, Value.under?_unlabelled]
    cases components.under? schemasKey with
    | none => rfl
    | some schemas => simp only [Option.map_some, Option.bind_some, Value.under?_unlabelled]

/-! ## The table of schemas -/

/-- Whether the root document has a schema of a name that says more than a reference to itself. -/
def keepsOwn (own : Option Value) (name : Text) : Bool :=
  own.any fun own => !own.same (selfReference name)

/-- What stands under the name of a gathered schema: the schema of the root document, or the
relocated source. -/
def installed (root : Path) (own : Option Value) (schema : Bundled) : Value :=
  if keepsOwn own schema.name then own.getD .null else schema.body root

/-- A schema of the root document that stays equals the gathered source. -/
def Fits (own : Option Value) (schema : Bundled) : Prop :=
  keepsOwn own schema.name = true → ∃ v, own = some v ∧ v.equals schema.source = true

/-- Adding a schema puts it under its name. -/
theorem get?_of_installSchema {root : Path} {schemas next : Entries} {schema : Bundled}
    (h : installSchema root schemas schema = .ok next) :
    Entries.get? schema.name next
        = some (installed root (Entries.get? schema.name schemas) schema) ∧
      Fits (Entries.get? schema.name schemas) schema := by
  unfold installSchema addSchema at h
  unfold installed Fits keepsOwn
  split at h
  · next hnone =>
    cases h
    simp [hnone]
  · next own hown =>
    split at h
    · next hself =>
      cases h
      simp [hown, hself]
    · next hself =>
      split at h
      · next hequal =>
        cases h
        simp [hown, hself, hequal]
      · cases h

/-- Adding a schema leaves those of other names. -/
theorem get?_of_installSchema_of_ne {root : Path} {schemas next : Entries} {schema : Bundled}
    {name : Text} (h : installSchema root schemas schema = .ok next) (hne : schema.name ≠ name) :
    Entries.get? name next = Entries.get? name schemas := by
  unfold installSchema addSchema at h
  split at h
  · cases h
    have hkey : Scalar.text schema.name ≠ .text name := fun heq => hne (Scalar.text.inj heq)
    rw [Entries.get?_append, Entries.get?_cons_of_ne hkey]
    exact Option.or_none
  · split at h
    · cases h
      exact Entries.get?_put_of_ne hne _ _
    · split at h
      · cases h
        rfl
      · cases h

/-- Adding the first of several schemas comes before adding the others. -/
theorem installAll_cons_eq_ok_iff (root : Path) (schemas final : Entries) (schema : Bundled)
    (rest : List Bundled) :
    installAll root schemas (schema :: rest) = .ok final ↔
      ∃ next, installSchema root schemas schema = .ok next ∧
        installAll root next rest = .ok final := by
  rw [installAll, List.foldlM_cons]
  cases installSchema root schemas schema <;> simp [bind, Except.bind, installAll]

/-- Adding schemas leaves those of other names. -/
theorem get?_of_installAll_of_notMem {root : Path} {schemas final : Entries}
    {bundled : List Bundled} {name : Text} (h : installAll root schemas bundled = .ok final)
    (hname : name ∉ bundled.map (·.name)) :
    Entries.get? name final = Entries.get? name schemas := by
  induction bundled generalizing schemas with
  | nil =>
    cases h
    rfl
  | cons schema rest ih =>
    rw [List.map_cons, List.mem_cons, not_or] at hname
    obtain ⟨next, hfirst, hrest⟩ := (installAll_cons_eq_ok_iff _ _ _ _ _).1 h
    rw [ih hrest hname.2, get?_of_installSchema_of_ne hfirst (Ne.symm hname.1)]

/-- Adding schemas of different names puts each under its name. -/
theorem get?_of_installAll {root : Path} {schemas final : Entries} {bundled : List Bundled}
    (h : installAll root schemas bundled = .ok final) (hnodup : (bundled.map (·.name)).Nodup)
    {schema : Bundled} (hschema : schema ∈ bundled) :
    Entries.get? schema.name final
        = some (installed root (Entries.get? schema.name schemas) schema) ∧
      Fits (Entries.get? schema.name schemas) schema := by
  induction bundled generalizing schemas with
  | nil => cases hschema
  | cons first rest ih =>
    rw [List.map_cons, List.nodup_cons] at hnodup
    obtain ⟨next, hfirst, hrest⟩ := (installAll_cons_eq_ok_iff _ _ _ _ _).1 h
    rcases List.mem_cons.1 hschema with rfl | hschema
    · rw [get?_of_installAll_of_notMem hrest hnodup.1]
      exact get?_of_installSchema hfirst
    · have hne : first.name ≠ schema.name := fun heq =>
        hnodup.1 (heq ▸ List.mem_map_of_mem (f := Bundled.name) hschema)
      rw [← get?_of_installSchema_of_ne hfirst hne]
      exact ih hrest hnodup.2 hschema

/-- What holds of the entries of a table and of all schemas under any key holds of the entries after
the schemas have been added. -/
theorem forall_of_installAll {P : Scalar × Value → Prop} {root : Path} {schemas final : Entries}
    {bundled : List Bundled} (h : installAll root schemas bundled = .ok final)
    (entries : ∀ entry ∈ schemas, P entry)
    (bodies : ∀ schema ∈ bundled, ∀ key, P (key, schema.body root)) : ∀ entry ∈ final, P entry := by
  induction bundled generalizing schemas with
  | nil =>
    cases h
    exact entries
  | cons first rest ih =>
    obtain ⟨hbody, hbodies⟩ := List.forall_mem_cons.1 bodies
    obtain ⟨next, hfirst, hrest⟩ := (installAll_cons_eq_ok_iff _ _ _ _ _).1 h
    refine ih hrest ?_ hbodies
    unfold installSchema addSchema at hfirst
    split at hfirst
    · cases hfirst
      exact List.forall_mem_append.2 ⟨entries, List.forall_mem_singleton.2 (hbody _)⟩
    · split at hfirst
      · cases hfirst
        rintro ⟨key, v⟩ hentry
        rcases Entries.mem_put hentry with rfl | hentry
        · exact hbody key
        · exact entries _ hentry
      · split at hfirst
        · cases hfirst
          exact entries
        · cases hfirst

/-! ## The document -/

/-- A part that has to be a mapping is missing, where nothing counts as true, or it is the mapping that
stands there. -/
theorem eq_or_get?_of_mappingPart {key : Text} {entries parts : Entries} {label : Option Nat}
    (h : mappingPart key entries = .ok (label, parts)) :
    (label = none ∧ parts = [] ∧ (Entries.get? key entries).bind Value.truthy? = none) ∨
      Entries.get? key entries = some (.mapping label parts) := by
  unfold mappingPart at h
  split at h
  · next hnone =>
    cases h
    exact Or.inl ⟨rfl, rfl, hnone⟩
  · next own items htrue =>
    cases h
    obtain ⟨part, hpart, htruthy⟩ := Option.bind_eq_some_iff.1 htrue
    refine Or.inr ?_
    rw [Value.truthy?] at htruthy
    split at htruthy
    · rw [hpart, Option.some.inj htruthy]
    · cases htruthy
  · cases h

/-- What holds of a mapping and of what stands under a key of it holds of the part that has to be a
mapping, if it holds of the empty mapping. -/
theorem of_mappingPart {P : Value → Prop} {key : Text} {label inner : Option Nat}
    {entries parts : Entries} (h : mappingPart key entries = .ok (inner, parts))
    (empty : P (.table [])) (whole : P (.mapping label entries))
    (under : ∀ v part : Value, P v → v.under? key = some part → P part) :
    P (.mapping inner parts) := by
  rcases eq_or_get?_of_mappingPart h with ⟨rfl, rfl, -⟩ | hfound
  · exact empty
  · exact under _ _ whole hfound

/-- A part that has to be a mapping has the entries that stand in the document; a missing one has
none. -/
theorem get?_of_mappingPart {key : Text} (label : Option Nat) {inner : Option Nat}
    {entries parts : Entries} (h : mappingPart key entries = .ok (inner, parts)) (name : Text) :
    Entries.get? name parts
      = ((Value.mapping label entries).under? key).bind (Value.under? name) := by
  rw [Value.under?]
  rcases eq_or_get?_of_mappingPart h with ⟨-, rfl, hnone⟩ | hfound
  · cases hpart : Entries.get? key entries with
    | none => rfl
    | some part =>
      rw [hpart] at hnone
      -- A part that does not count as true has no entries either.
      cases part with
      | mapping own items =>
        cases items with
        | nil => rfl
        | cons _ _ => cases hnone
      | _ => rfl
  · rw [hfound]
    rfl

/-- The schemas among the components of a document are its component schemas. -/
theorem get?_of_mappingParts (label : Option Nat) {entries components schemas : Entries}
    {componentsLabel schemasLabel : Option Nat}
    (hcomponents : mappingPart componentsKey entries = .ok (componentsLabel, components))
    (hschemas : mappingPart schemasKey components = .ok (schemasLabel, schemas)) (name : Text) :
    Entries.get? name schemas = componentSchema? (.mapping label entries) name := by
  rw [get?_of_mappingPart componentsLabel hschemas]
  show ((Entries.get? schemasKey components).bind _) = _
  rw [get?_of_mappingPart label hcomponents]
  rfl

@[simp] theorem Value.replaceLabelledItems_eq_map (label : Nat) (inner : Entries) (items : List Value) :
    Value.replaceLabelledItems label inner items = items.map (Value.replaceLabelled label inner) := by
  induction items with
  | nil => rfl
  | cons item rest ih => rw [Value.replaceLabelledItems, ih, List.map_cons]

theorem Value.replaceLabelledEntries_eq_map (label : Nat) (inner entries : Entries) :
    Value.replaceLabelledEntries label inner entries
      = entries.map fun entry => (entry.1, Value.replaceLabelled label inner entry.2) := by
  induction entries with
  | nil => rfl
  | cons entry rest ih => rw [Value.replaceLabelledEntries, ih, List.map_cons]

/-- Some entries with other entries in every repetition of a mapping of the given label. -/
def Value.replaceRepeated (label : Option Nat) (inner outer : Entries) : Entries :=
  match label with
  | some label => replaceLabelledEntries label inner outer
  | none => outer

/-- The parts of a document in which schemas are installed, before and afterwards. -/
theorem exists_parts_of_install {root : Path} {document final : Value} {bundled : List Bundled}
    (some : bundled ≠ []) (h : install root document bundled = .ok final) :
    ∃ label entries componentsLabel components schemasLabel schemas schemas',
      document = .mapping label entries ∧
        mappingPart componentsKey entries = .ok (componentsLabel, components) ∧
          mappingPart schemasKey components = .ok (schemasLabel, schemas) ∧
            installAll root schemas bundled = .ok schemas' ∧
              final = .mapping label (Value.putMapping componentsKey componentsLabel
                (Value.putMapping schemasKey schemasLabel schemas' components)
                (Value.replaceRepeated schemasLabel schemas' entries)) := by
  cases bundled with
  | nil => exact absurd rfl some
  | cons first rest =>
    cases document with
    | mapping label entries =>
      simp only [install, changeSchemas, List.isEmpty_cons, Bool.false_eq_true, if_false,
        bind_eq_ok_iff] at h
      obtain ⟨⟨componentsLabel, components⟩, hcomponents, ⟨schemasLabel, schemas⟩, hschemas,
        schemas', hall, hfinal⟩ := h
      exact ⟨label, entries, componentsLabel, components, schemasLabel, schemas, schemas', rfl,
        hcomponents, hschemas, hall, (Except.ok.inj hfinal).symm⟩
    | _ => simp [install, changeSchemas] at h

/-- Installing schemas in a document adds them to its component schemas. -/
theorem componentSchema?_of_install {root : Path} {document final : Value} {bundled : List Bundled}
    (some : bundled ≠ []) (h : install root document bundled = .ok final) :
    ∃ schemas schemas', installAll root schemas bundled = .ok schemas' ∧
      (∀ name, Entries.get? name schemas = componentSchema? document name) ∧
        ∀ name, componentSchema? final name = Entries.get? name schemas' := by
  obtain ⟨label, entries, componentsLabel, components, schemasLabel, schemas, schemas', rfl,
    hcomponents, hschemas, hall, rfl⟩ := exists_parts_of_install some h
  refine ⟨schemas, schemas', hall, get?_of_mappingParts label hcomponents hschemas, fun name => ?_⟩
  simp only [componentSchema?, Value.putMapping, Value.under?, Entries.get?_put_self,
    Option.bind_some]

/-! ## Bundling -/

/-- Bundling succeeds with what is gathered and installed. -/
theorem bundle_outcome_eq_ok_iff (tree : FileTree) (shelf : Shelf) (root : Path)
    (document result : Value) :
    (bundle tree shelf root document).2.outcome = .ok result ↔
      ∃ gathering final, (gatherFrom tree shelf root document).outcome = .ok gathering ∧
        install root (document.relocated root root) gathering.schemas = .ok final ∧
          result = final.unlabelled := by
  simp only [bundle, Traced.outcome_bind_eq_ok_iff]
  constructor
  · rintro ⟨_, -, gathering, hgather, final, hinstall, _, -, hresult⟩
    cases hresult
    exact ⟨gathering, final, hgather, hinstall, rfl⟩
  · rintro ⟨gathering, final, hgather, hinstall, rfl⟩
    exact ⟨(), rfl, gathering, hgather, final, hinstall, (), rfl, rfl⟩

/-- Each gathered schema is a component schema of the bundled document. -/
theorem componentSchema?_of_bundle {tree : FileTree} {shelf : Shelf} {root : Path}
    {document result : Value} (h : (bundle tree shelf root document).2.outcome = .ok result) :
    ∃ gathering, (gatherFrom tree shelf root document).outcome = .ok gathering ∧
      ∀ schema ∈ gathering.schemas, ∀ own,
        own = componentSchema? (document.relocated root root) schema.name →
          componentSchema? result schema.name = some (installed root own schema).unlabelled ∧
            Fits own schema := by
  obtain ⟨gathering, final, hgather, hinstall, rfl⟩ := (bundle_outcome_eq_ok_iff _ _ _ _ _).1 h
  refine ⟨gathering, hgather, ?_⟩
  rintro schema hschema own rfl
  have hnames := (registered_of_gatherFrom hgather).names
  obtain ⟨schemas, schemas', hall, hbefore, hafter⟩ :=
    componentSchema?_of_install (List.ne_nil_of_mem hschema) hinstall
  obtain ⟨hentry, fits⟩ := get?_of_installAll hall hnames hschema
  rw [hbefore] at hentry fits
  rw [componentSchema?_unlabelled, hafter, hentry, Option.map_some]
  exact ⟨rfl, fits⟩

end SchemaCodecs
