/-
# Loaded documents are self-contained

When a document has been loaded, the references in its schemas stay inside it: all references that
are met have a meaning, so each is redirected to a part of the document.  This goes as far as the
references that are met.  What stands under the key of a reference is left as it is if it is no text,
and so are the references behind a property or component of that name.

* `IsSelfContained` : every reference that is met stays inside;
* `isSelfContained_relocated` : relocation makes it so if every reference has a meaning;
* `isLocal_of_load` : the references that are classified in a loaded document.
-/
import SchemaCodecs.Proofs.Bundle.Installation
import SchemaCodecs.Proofs.Schema.Places
import SchemaCodecs.Proofs.Value.Equality
import SchemaCodecs.Proofs.Yaml.Reading
import Mathlib.Data.List.Permutation

namespace SchemaCodecs

/-! ## References that stay inside -/

/-- A reference with a meaning is redirected to a part of the root document. -/
theorem isLocal_redirectRef {root base : Path} {ref : Text} {meant : Meaning}
    (h : meaning root base ref = .ok meant) :
    Reference.isLocal (redirectRef root base ref) = true := by
  cases meant with
  | itself =>
    have hself : redirectRef root base ref = ref := by rw [redirectRef, h]
    rw [hself]
    simp only [meaning] at h
    split at h
    · next hinside =>
      rw [Bool.and_eq_true] at hinside
      exact hinside.1
    · repeat' split at h
      all_goals cases h
  | inRoot pointer =>
    have hpart : redirectRef root base ref = "#" ++ pointer := by rw [redirectRef, h]
    rw [hpart, isLocal_append]
  | external target =>
    have hschema : redirectRef root base ref = Reference.toSchema target.name := by
      rw [redirectRef, h]
    rw [hschema, toSchema_eq_local, isLocal_append]

theorem meaning_root_of_isLocal (root : Path) {ref : Text} (h : Reference.isLocal ref = true) :
    meaning root root ref = .ok .itself := by
  rw [meaning, h, beq_self_eq_true, Bool.and_true, if_pos rfl]

theorem redirectRef_root_of_isLocal (root : Path) {ref : Text} (h : Reference.isLocal ref = true) :
    redirectRef root root ref = ref := by
  rw [redirectRef, meaning_root_of_isLocal root h]

namespace Value

/-- The way through a value comes to the end, and every reference on it stays inside the document. -/
@[mk_iff]
structure IsSelfContained (v : Value) : Prop where
  /-- The way comes to the end. -/
  ends : v.Ends
  /-- The references stay inside. -/
  inside : ∀ site ∈ v.sites, Reference.isLocal site.ref = true

@[simp] theorem isSelfContained_sequence_iff (items : List Value) :
    IsSelfContained (sequence items) ↔ ∀ v ∈ items, IsSelfContained v := by
  rw [isSelfContained_iff, ends_sequence_iff, sites, sitesOfItems_eq_flatMap]
  simp only [isSelfContained_iff, List.mem_flatMap, forall_exists_index, and_imp]
  constructor
  · rintro ⟨ends, inside⟩ v hv
    exact ⟨ends v hv, fun site hsite => inside site v hv hsite⟩
  · intro h
    exact ⟨fun v hv => (h v hv).1, fun site v hv hsite => (h v hv).2 site hsite⟩

/-- Entries are self-contained if their values are, except under the key of a reference. -/
def EntriesSelfContained (entries : Entries) : Prop :=
  ∀ entry ∈ entries, isRefKey entry.1 = false → IsSelfContained entry.2

@[simp] theorem isSelfContained_mapping_iff (label : Option Nat) (entries : Entries) :
    IsSelfContained (mapping label entries) ↔
      (∀ ref, refOf? entries = some ref → Reference.isLocal ref = true) ∧
        EntriesSelfContained entries := by
  have hsites : (∀ site ∈ (mapping label entries).sites, Reference.isLocal site.ref = true) ↔
      (∀ ref, refOf? entries = some ref → Reference.isLocal ref = true) ∧
        ∀ entry ∈ entries, isRefKey entry.1 = false →
          ∀ site ∈ entry.2.sites, Reference.isLocal site.ref = true := by
    rw [sites, sitesOfEntries_eq_flatMap, List.forall_mem_append]
    refine and_congr ?_ ?_
    · cases refOf? entries <;> simp
    · simp only [List.mem_flatMap, forall_exists_index, and_imp]
      constructor
      · intro h entry hentry hkey site hsite
        refine h site entry hentry ?_
        rwa [hkey]
      · intro h site entry hentry hsite
        split at hsite
        · simp at hsite
        · next hkey => exact h entry hentry (Bool.eq_false_iff.2 hkey) site hsite
  rw [isSelfContained_iff, ends_mapping_iff, hsites, EntriesSelfContained]
  simp only [isSelfContained_iff]
  constructor
  · rintro ⟨ends, inside, entries⟩
    exact ⟨inside, fun entry hentry hkey => ⟨ends entry hentry hkey, entries entry hentry hkey⟩⟩
  · rintro ⟨inside, entries⟩
    exact ⟨fun entry hentry hkey => (entries entry hentry hkey).1, inside,
      fun entry hentry hkey => (entries entry hentry hkey).2⟩

theorem EntriesSelfContained.of_get? {entries : Entries} (h : EntriesSelfContained entries)
    {key : Text} (hkey : key ≠ Reference.refKey) {v : Value}
    (hfound : Entries.get? key entries = some v) : IsSelfContained v :=
  h _ (mem_of_get? hfound) (isRefKey_text_of_ne hkey)

/-! ## Relocation -/

theorem isSelfContained_set (members : List Scalar) : IsSelfContained (set members) :=
  ⟨rfl, by simp [sites]⟩

theorem isSelfContained_pair (first second : Value) : IsSelfContained (pair first second) :=
  ⟨rfl, by simp [sites]⟩

/-- A value through which the way comes to the end is self-contained after redirection if each of its
references is redirected to one that stays inside. -/
theorem isSelfContained_redirectRefs {settled : Repeated} {redirect : Text → Text} {v : Value}
    (ends : v.Ends) (h : ∀ site ∈ v.sites, Reference.isLocal
      ((site.label.bind fun label => settled.lookup label).getD (redirect site.ref)) = true) :
    IsSelfContained (redirectRefs settled redirect v) := by
  induction v using parts_induction with
  | scalar s => exact ⟨ends, by simp [redirectRefs, sites]⟩
  | sequence items ih =>
    rw [ends_sequence_iff] at ends
    rw [redirectRefs, redirectItems_eq_map, isSelfContained_sequence_iff, List.forall_mem_map]
    intro v hv
    refine ih v hv (ends v hv) fun site hsite => h site ?_
    rw [sites, sitesOfItems_eq_flatMap]
    exact List.mem_flatMap.2 ⟨v, hv, hsite⟩
  | mapping label entries ih =>
    rw [ends_mapping_iff] at ends
    rw [redirectRefs, redirectEntries_eq_map, isSelfContained_mapping_iff]
    constructor
    · intro ref href
      -- The reference of the mapping is the first of its places.
      rw [refOf?_redirected] at href
      obtain ⟨own, hown, rfl⟩ := Option.map_eq_some_iff.1 href
      refine h ⟨label, own⟩ ?_
      rw [sites, hown]
      exact List.mem_append_left _ List.mem_cons_self
    · refine List.forall_mem_map.2 fun entry hentry hkey => ?_
      rw [redirectAt_of_other hkey]
      refine ih entry hentry (ends entry hentry hkey) fun site hsite => h site ?_
      rw [sites, sitesOfEntries_eq_flatMap]
      refine List.mem_append_right _ (List.mem_flatMap.2 ⟨entry, hentry, ?_⟩)
      rwa [hkey]
  | set members => exact isSelfContained_set members
  | pair first second _ _ => exact isSelfContained_pair _ _

end Value

namespace Site

variable {redirect : Text → Text} {repeated : Repeated} {places : List Site}

/-- What repeated mappings hold in the end is redirected from references that are met. -/
theorem exists_met_of_mem_settled {entry : Nat × Text}
    (h : entry ∈ places.foldl (afterwards redirect) repeated) :
    entry ∈ repeated ∨ ∃ ref ∈ met redirect repeated places, entry.2 = redirect ref := by
  induction places generalizing repeated with
  | nil => exact Or.inl h
  | cons site rest ih =>
    rw [met]
    rcases ih h with hafter | ⟨ref, href, hentry⟩
    · rw [afterwards] at hafter
      split at hafter
      · exact Or.inl hafter
      · rcases List.mem_cons.1 hafter with rfl | hbefore
        · exact Or.inr ⟨_, List.mem_cons_self, rfl⟩
        · exact Or.inl hbefore
    · exact Or.inr ⟨ref, List.mem_cons_of_mem _ href, hentry⟩

/-- A label that has been noted stays noted. -/
theorem exists_lookup_foldl {label : Nat}
    (h : (∃ ref, repeated.lookup label = some ref) ∨ ∃ site ∈ places, site.label = some label) :
    ∃ ref, (places.foldl (afterwards redirect) repeated).lookup label = some ref := by
  induction places generalizing repeated with
  | nil =>
    rcases h with h | ⟨_, hmem, -⟩
    · exact h
    · cases hmem
  | cons site rest ih =>
    refine ih ?_
    by_cases hlabel : site.label = some label
    · refine Or.inl ⟨redirect (site.current repeated), ?_⟩
      rw [afterwards, hlabel]
      exact List.lookup_cons_self
    · rcases h with ⟨ref, href⟩ | ⟨other, hmem, hother⟩
      · refine Or.inl ⟨ref, ?_⟩
        rw [afterwards]
        split
        · exact href
        · next own hown =>
          have hne : (label == own) = false := by
            rw [beq_eq_false_iff_ne]
            rintro rfl
            exact hlabel hown
          rw [List.lookup_cons, hne]
          exact href
      · rcases List.mem_cons.1 hmem with rfl | hmem
        · exact absurd hother hlabel
        · exact Or.inr ⟨other, hmem, hother⟩

/-- A reference without a label is met as it stands. -/
theorem mem_met_of_label_eq_none {site : Site} (hmem : site ∈ places) (h : site.label = none) :
    site.ref ∈ met redirect repeated places := by
  induction places generalizing repeated with
  | nil => cases hmem
  | cons first rest ih =>
    rw [met]
    rcases List.mem_cons.1 hmem with rfl | hmem
    · rw [current, h]
      exact List.mem_cons_self
    · exact List.mem_cons_of_mem _ (ih hmem)

end Site

/-- The way through a part of a file comes to its end, and all references on it have a meaning. -/
structure HasMeaning (root base : Path) (v : Value) : Prop where
  /-- The way comes to its end. -/
  ends : v.Ends
  /-- What is met has a meaning. -/
  met : ∀ ref ∈ v.refsMet root base, ∃ meant, meaning root base ref = .ok meant

/-- **Relocation.**  A part of a file whose references all have a meaning is self-contained once it
has been relocated. -/
theorem isSelfContained_relocated {root base : Path} {v : Value} (h : HasMeaning root base v) :
    (v.relocated root base).IsSelfContained := by
  have hmet : ∀ ref ∈ Site.met (redirectRef root base) [] v.sites,
      Reference.isLocal (redirectRef root base ref) = true := by
    intro ref href
    obtain ⟨meant, hmeant⟩ := h.met ref (by rwa [Value.refsMet, h.ends.sitesMet_eq])
    exact isLocal_redirectRef hmeant
  refine Value.isSelfContained_redirectRefs h.ends fun site hsite => ?_
  cases hlabel : site.label with
  | none => exact hmet site.ref (Site.mem_met_of_label_eq_none hsite hlabel)
  | some label =>
    -- A repeated mapping ends with what the last redirection has left in it.
    obtain ⟨settled, hlookup⟩ := @Site.exists_lookup_foldl (redirectRef root base) [] v.sites label
      (Or.inr ⟨site, hsite, hlabel⟩)
    obtain ⟨front, back, hentries, -⟩ := List.lookup_eq_some_iff.1 hlookup
    have hentry : (label, settled) ∈ v.sites.foldl (Site.afterwards (redirectRef root base)) [] := by
      rw [hentries]
      exact List.mem_append_right _ List.mem_cons_self
    rcases Site.exists_met_of_mem_settled hentry with hnone | ⟨ref, href, heq⟩
    · cases hnone
    · rw [Option.bind_some, Site.settled, hlookup, Option.getD_some]
      obtain rfl : settled = redirectRef root base ref := heq
      exact hmet ref href

/-! ## Gathering -/

section Gathered

variable {tree : FileTree} {shelf : Shelf} {root : Path} {gathering final : Gathering}
  {tasks : List Task}

/-- The references that a derivation follows have a meaning. -/
theorem Gathers.exists_meaning (h : Gathers tree shelf root gathering tasks final) {base : Path}
    {ref : Text} (hmem : Task.follow base ref ∈ tasks) :
    ∃ meant, meaning root base ref = .ok meant := by
  induction h with
  | done _ => cases hmem
  | close _ _ _ ih =>
    rcases List.mem_cons.1 hmem with heq | hmem
    · cases heq
    · exact ih hmem
  | stay means _ _ ih =>
    rcases List.mem_cons.1 hmem with heq | hmem
    · cases heq
      exact ⟨_, means⟩
    · exact ih hmem
  | known means _ _ ih =>
    rcases List.mem_cons.1 hmem with heq | hmem
    · cases heq
      exact ⟨_, means⟩
    · exact ih hmem
  | new means _ _ _ _ ih =>
    rcases List.mem_cons.1 hmem with heq | hmem
    · cases heq
      exact ⟨_, means⟩
    · exact ih (List.mem_append_right _ (List.mem_cons_of_mem _ hmem))

/-- A derivation never goes round. -/
theorem Gathers.goRound_notMem (h : Gathers tree shelf root gathering tasks final) :
    Task.goRound ∉ tasks := by
  induction h with
  | done _ => exact List.not_mem_nil
  | close _ _ _ ih => simpa using ih
  | stay _ _ _ ih => simpa using ih
  | known _ _ _ ih => simpa using ih
  | new _ _ _ _ _ ih => simp_all

/-- The part for which a derivation carries out the tasks has a meaning. -/
theorem Gathers.hasMeaning_of_tasksFor {base : Path} {v : Value}
    (h : Gathers tree shelf root gathering tasks final) (hsub : tasksFor root base v ⊆ tasks) :
    HasMeaning root base v where
  ends := (Value.isEndless_eq_false_iff v).1 (Bool.eq_false_iff.2 fun hendless =>
    h.goRound_notMem (hsub (goRound_mem_tasksFor_iff.2 hendless)))
  met _ hmet := h.exists_meaning (hsub (follow_mem_tasksFor_iff.2 ⟨rfl, hmet⟩))

/-- The references in the schemas that a derivation gathers have a meaning. -/
theorem Gathers.hasMeaning (h : Gathers tree shelf root gathering tasks final)
    (first : ∀ schema ∈ gathering.schemas, HasMeaning root schema.target.file schema.source) :
    ∀ schema ∈ final.schemas, HasMeaning root schema.target.file schema.source := by
  induction h with
  | done _ => exact first
  | close _ _ _ ih => exact ih first
  | stay _ _ _ ih => exact ih first
  | known _ _ _ ih => exact ih first
  | new _ _ _ _ next ih =>
    refine ih fun schema hschema => ?_
    rcases Gathering.mem_putSchema hschema with rfl | hschema
    · exact next.hasMeaning_of_tasksFor (List.subset_append_left _ _)
    · exact first schema hschema

end Gathered

/-- Gathering from a root document succeeds only if the references in the document and in all
gathered schemas have a meaning. -/
theorem hasMeaning_of_gatherFrom {tree : FileTree} {shelf : Shelf} {root : Path} {document : Value}
    {gathering : Gathering} (h : (gatherFrom tree shelf root document).outcome = .ok gathering) :
    HasMeaning root root document ∧
      ∀ schema ∈ gathering.schemas, HasMeaning root schema.target.file schema.source := by
  have hgathers := (gatherFrom_outcome_eq_ok_iff gathering).1 h
  exact ⟨hgathers.hasMeaning_of_tasksFor (List.Subset.refl _), hgathers.hasMeaning (by simp)⟩

/-! ## Tables of schemas -/

@[simp] theorem Value.isSelfContained_unlabelled_iff (v : Value) :
    v.unlabelled.IsSelfContained ↔ v.IsSelfContained := by
  rw [Value.isSelfContained_iff, Value.isSelfContained_iff, Value.ends_unlabelled_iff,
    Value.sites_unlabelled, List.forall_mem_map]

theorem Value.EntriesSelfContained.unlabelled {entries : Entries}
    (h : Value.EntriesSelfContained entries) :
    Value.EntriesSelfContained (Value.unlabelledEntries entries) := by
  rw [Value.unlabelledEntries_eq_map]
  refine List.forall_mem_map.2 fun entry hentry hkey => ?_
  exact (Value.isSelfContained_unlabelled_iff entry.2).2 (h entry hentry hkey)

/-- Adding self-contained schemas to self-contained entries keeps them so. -/
theorem Value.EntriesSelfContained.installAll {root : Path} {schemas final : Entries}
    {bundled : List Bundled} (h : Value.EntriesSelfContained schemas)
    (hbodies : ∀ schema ∈ bundled, (schema.body root).IsSelfContained)
    (hall : installAll root schemas bundled = .ok final) : Value.EntriesSelfContained final :=
  forall_of_installAll hall h fun schema hschema _ _ => hbodies schema hschema

/-- A table in self-contained entries is self-contained. -/
theorem Value.EntriesSelfContained.tableAt {key : Text} {entries table : Entries}
    (h : Value.EntriesSelfContained entries) (hkey : key ≠ Reference.refKey)
    (htable : Schema.tableAt key entries = .ok table) : Value.EntriesSelfContained table := by
  unfold Schema.tableAt at htable
  split at htable
  · cases htable
    rintro entry ⟨⟩
  · next label inner hfound =>
    cases htable
    have hfound := Schema.get?_of_keyword? hfound
    have hmapping := h.of_get? hkey hfound
    exact ((Value.isSelfContained_mapping_iff _ _).1 hmapping).2
  · cases htable

theorem tableAt_eq_map (key : Text) (entries : Entries) :
    Schema.tableAt key entries = (mappingPart key entries).map Prod.snd := by
  rw [Schema.tableAt, mappingPart, Schema.keyword?]
  cases (Entries.get? key entries).bind Value.truthy? with
  | none => rfl
  | some v => cases v <;> rfl

theorem tableAt_of_mappingPart {key : Text} {entries parts : Entries} {label : Option Nat}
    (h : mappingPart key entries = .ok (label, parts)) : Schema.tableAt key entries = .ok parts := by
  rw [tableAt_eq_map, h]
  rfl

@[simp] theorem tableAt_put_self (key : Text) (label : Option Nat) (table entries : Entries) :
    Schema.tableAt key (Entries.put (.text key) (.mapping label table) entries) = .ok table := by
  rw [Schema.tableAt, Schema.keyword?, Entries.get?_put_self, Option.bind_some, Value.truthy?]
  cases table with
  | nil => rfl
  | cons entry rest => rfl

theorem componentSchemas_put (label componentsLabel schemasLabel : Option Nat)
    (table components entries : Entries) :
    Schema.componentSchemas (.mapping label (Value.putMapping componentsKey componentsLabel
      (Value.putMapping schemasKey schemasLabel table components) entries)) = .ok table := by
  refine (bind_eq_ok_iff _ _ _).2 ⟨_, tableAt_put_self componentsKey _ _ _, ?_⟩
  exact tableAt_put_self schemasKey _ _ _

@[simp] theorem mappingPart_unlabelled (key : Text) (entries : Entries) :
    mappingPart key (Value.unlabelledEntries entries)
      = (mappingPart key entries).map fun part => (none, Value.unlabelledEntries part.2) := by
  rw [mappingPart, mappingPart, Value.get?_unlabelledEntries,
    Entries.bind_truthy?_map Value.isTruthy_unlabelled]
  cases (Entries.get? key entries).bind Value.truthy? with
  | none => rfl
  | some v => cases v <;> rfl

@[simp] theorem tableAt_unlabelled (key : Text) (entries : Entries) :
    Schema.tableAt key (Value.unlabelledEntries entries)
      = (Schema.tableAt key entries).map Value.unlabelledEntries := by
  rw [tableAt_eq_map, tableAt_eq_map, mappingPart_unlabelled]
  cases mappingPart key entries <;> rfl

@[simp] theorem componentSchemas_unlabelled (document : Value) :
    Schema.componentSchemas document.unlabelled
      = (Schema.componentSchemas document).map Value.unlabelledEntries := by
  cases document with
  | mapping label entries =>
    rw [Value.unlabelled, Schema.componentSchemas, Schema.componentSchemas, tableAt_unlabelled]
    cases Schema.tableAt "components" entries with
    | error fault => rfl
    | ok components => exact tableAt_unlabelled "schemas" components
  | _ => rfl

/-- The component schemas of a self-contained document are self-contained. -/
theorem Value.IsSelfContained.componentSchemas {document : Value} {table : Entries}
    (h : document.IsSelfContained) (htable : Schema.componentSchemas document = .ok table) :
    Value.EntriesSelfContained table := by
  cases document with
  | mapping label entries =>
    obtain ⟨components, hcomponents, hschemas⟩ := (bind_eq_ok_iff _ _ _).1 htable
    obtain ⟨-, hentries⟩ := (Value.isSelfContained_mapping_iff _ _).1 h
    exact (hentries.tableAt (by decide) hcomponents).tableAt (by decide) hschemas
  | _ => cases htable

/-- The component schemas of a bundled document are self-contained, except one that is named like the
key of a reference. -/
theorem entriesSelfContained_of_bundle {tree : FileTree} {shelf : Shelf} {root : Path}
    {document result : Value} (h : (bundle tree shelf root document).2.outcome = .ok result)
    {table : Entries} (htable : Schema.componentSchemas result = .ok table) :
    Value.EntriesSelfContained table := by
  obtain ⟨gathering, final, hgather, hinstall, rfl⟩ := (bundle_outcome_eq_ok_iff _ _ _ _ _).1 h
  obtain ⟨hdocument, hschemas⟩ := hasMeaning_of_gatherFrom hgather
  have hrelocated := isSelfContained_relocated hdocument
  rw [componentSchemas_unlabelled] at htable
  obtain ⟨schemas, hfinal, rfl⟩ := exists_of_map_eq_ok htable
  refine Value.EntriesSelfContained.unlabelled ?_
  -- Without bundled schemas the document stays as it is, even if it has no table to put them in.
  by_cases hnone : gathering.schemas = []
  · rw [hnone] at hinstall
    cases hinstall
    exact hrelocated.componentSchemas hfinal
  · obtain ⟨label, entries, componentsLabel, components, schemasLabel, before, after, hmapping,
      hcomponents, hbefore, hall, rfl⟩ := exists_parts_of_install hnone hinstall
    have hafter : schemas = after :=
      Except.ok.inj (hfinal.symm.trans (componentSchemas_put label componentsLabel schemasLabel
        after components _))
    have hown : Schema.componentSchemas (document.relocated root root) = .ok before := by
      rw [hmapping]
      exact (bind_eq_ok_iff _ _ _).2
        ⟨components, tableAt_of_mappingPart hcomponents, tableAt_of_mappingPart hbefore⟩
    subst hafter
    refine (hrelocated.componentSchemas hown).installAll (fun schema hschema => ?_) hall
    exact (Value.isSelfContained_unlabelled_iff _).2
      (isSelfContained_relocated (hschemas schema hschema))

/-! ## Schemas of a loaded document -/

open Schema

/-- No property on the way is named like the key of a reference. -/
def AvoidsRefKey (place : List Step) : Prop :=
  ∀ name, .property name ∈ place → name ≠ .text Reference.refKey

/-- A schema inside a self-contained one is self-contained, unless it stands in a property that is
named like the key of a reference. -/
theorem isSelfContained_of_standsAt {place : List Step} {schema outer : Value}
    (h : StandsAt place schema outer) (avoids : AvoidsRefKey place)
    (houter : outer.IsSelfContained) : schema.IsSelfContained := by
  induction h with
  | here schema => exact houter
  | items _ found _ ih =>
    obtain ⟨-, hentries⟩ := (Value.isSelfContained_mapping_iff _ _).1 houter
    exact ih (fun name hname => avoids name (List.mem_cons_of_mem _ hname))
      (hentries.of_get? (by decide) found)
  | @property _ _ _ _ _ _ _ name _ found mem _ ih =>
    obtain ⟨-, hentries⟩ := (Value.isSelfContained_mapping_iff _ _).1 houter
    have hproperties := hentries.of_get? (by decide) (get?_of_keyword? found)
    obtain ⟨-, hinner⟩ := (Value.isSelfContained_mapping_iff _ _).1 hproperties
    have hkey : isRefKey name = false := by
      rw [Bool.eq_false_iff, ne_eq, isRefKey_iff]
      exact avoids name List.mem_cons_self
    exact ih (fun name hname => avoids name (List.mem_cons_of_mem _ hname)) (hinner _ mem hkey)
  | @member _ _ _ _ _ _ keyword _ _ known found mem _ ih =>
    obtain ⟨-, hentries⟩ := (Value.isSelfContained_mapping_iff _ _).1 houter
    have hkeyword : keyword ≠ Reference.refKey := by
      rintro rfl
      revert known
      decide
    have hmembers := hentries.of_get? hkeyword found
    rw [Value.isSelfContained_sequence_iff] at hmembers
    exact ih (fun name hname => avoids name (List.mem_cons_of_mem _ hname))
      (hmembers _ (List.mem_of_getElem? mem))

/-- A document that is loaded has been bundled. -/
theorem exists_bundle_of_load {tree : FileTree} {shelf : Shelf} {path : Path} {result : Value}
    (h : (load tree shelf path).2.outcome = .ok result) :
    ∃ shelf' root document, (bundle tree shelf' root document).2.outcome = .ok result := by
  unfold load at h
  simp only at h
  split at h
  · cases h
  · split at h
    · cases h
    · exact ⟨_, _, _, h⟩

/-- A document that is fetched and accepted is bundled. -/
theorem load_of_fetch {tree : FileTree} {shelf after : Shelf} {path file : Path} {document : Value}
    (hfile : resolveFile path = .ok file)
    (hfetch : Shelf.fetch shelf tree file = .ok (document, after))
    (hcheck : checkDocument document = .ok document) :
    load tree shelf path = bundle tree after file document := by
  simp only [load, hfile, hfetch, bind, Except.bind, pure, Except.pure, hcheck]

/-- **Loaded documents are self-contained.**  A reference among the nodes of a loaded document comes
from a schema at the same place.  If the reference is a text there, then it stays inside the
document, unless the component or a property on the way is named like the key of a reference. -/
theorem isLocal_of_load {tree : FileTree} {shelf : Shelf} {path : Path} {document : Value}
    (hload : (load tree shelf path).2.outcome = .ok document) {found : List Component}
    (hfound : Schema.components document = .ok found) {component : Component}
    (hcomponent : component ∈ found) {place : List Step} {own target : Text}
    (hnode : NodeAt place (.reference own target) component.body)
    (hname : component.name ≠ .text Reference.refKey) (avoids : AvoidsRefKey place) :
    ∃ table schema label entries ref, componentSchemas document = .ok table ∧
      (component.name, schema) ∈ table ∧ StandsAt place (.mapping label entries) schema ∧
        Entries.get? Reference.refKey entries = some ref ∧ shown ref = .ok target ∧
          ∀ text, ref = .text text → target = text ∧ Reference.isLocal target = true := by
  obtain ⟨shelf', root, source, hbundle⟩ := exists_bundle_of_load hload
  obtain ⟨table, schema, htable, hmem, hclassified⟩ := exists_entry_of_component hfound hcomponent
  obtain ⟨label, entries, ref, hplace, href, hshown⟩ := exists_ref_of_nodeAt hnode hclassified
  refine ⟨table, schema, label, entries, ref, htable, hmem, hplace, href, hshown, ?_⟩
  rintro text rfl
  obtain rfl := Except.ok.inj hshown
  have hkey : isRefKey component.name = false := by
    rw [Bool.eq_false_iff, ne_eq, isRefKey_iff]
    exact hname
  have hschema := entriesSelfContained_of_bundle hbundle htable _ hmem hkey
  have hinner := isSelfContained_of_standsAt hplace avoids hschema
  refine ⟨rfl, ((Value.isSelfContained_mapping_iff _ _).1 hinner).1 text ?_⟩
  rw [refOf?, href]
  rfl

/-! ## A property named like the key of a reference -/

namespace RefProperty

/-- The root document. -/
def root : Path := { names := ["root"] }

/-- The file that the root document refers to. -/
def file : Path := { names := ["a"] }

/-- The text of the root document: two properties with the same reference, one of them named like
the key of references. -/
def rootText : Text :=
  "openapi: 1\ncomponents:\n schemas:\n  A:\n   type: object\n   properties:\n" ++
    "    $ref:\n     $ref: a#/X\n    b:\n     $ref: a#/X\n"

/-- The text of the other file. -/
def partsText : Text := "X:\n  type: string\n"

/-- The two files. -/
def tree : FileTree :=
  ⟨[(root, .file (Text.asciiBytes rootText)), (file, .file (Text.asciiBytes partsText))]⟩

/-- A mapping that only holds a reference. -/
def refTo (ref : Text) : Value := .table [(.text Reference.refKey, .text ref)]

/-- A schema for texts. -/
def textSchema : Value := .table [(.text "type", .text "string")]

/-- The schema with two properties. -/
def schemaOf (ref : Text) : Value :=
  .table [(.text "type", .text "object"), (.text "properties", .table
    [(.text Reference.refKey, refTo "a#/X"), (.text "b", refTo ref)])]

/-- A document with the schema and others. -/
def documentOf (ref : Text) (others : Entries) : Value :=
  .table [(.text "openapi", .int 1), (.text componentsKey, .table [(.text schemasKey,
    .table ((.text "A", schemaOf ref) :: others))])]

/-- The root document. -/
def document : Value := documentOf "a#/X" []

/-- The document in the other file. -/
def parts : Value := .table [(.text "X", textSchema)]

/-- What the nodes of the root file stand for. -/
def documentLabelled : Value :=
  .mapping (some 0) [(.text "openapi", .int 1), (.text "components", .mapping (some 4) [
    (.text "schemas", .mapping (some 6) [(.text "A", .mapping (some 8) [
      (.text "type", .text "object"), (.text "properties", .mapping (some 12) [
        (.text "$ref", .mapping (some 14) [(.text "$ref", .text "a#/X")]),
        (.text "b", .mapping (some 18) [(.text "$ref", .text "a#/X")])])])])])]

/-- What the nodes of the other file stand for. -/
def partsLabelled : Value :=
  .mapping (some 0) [(.text "X", .mapping (some 2) [(.text "type", .text "string")])]

@[simp] theorem toList_append_ofList (first second : List Char) :
    (Text.ofString (String.ofList first ++ String.ofList second)).toList
      = (first ++ second).map .char := by
  rw [← String.ofList_append, Text.toList_ofString_ofList]

/-- What is read from the two files. -/
theorem readDocument_tree :
    readDocument tree root = .ok document ∧ readDocument tree file = .ok parts := by
  constructor
  · refine @readDocument_of_ascii tree root rootText _ documentLabelled (toList_append_ofList _ _)
      rfl ?_ ?_ ?_
    · decide
    · decide +kernel
    · decide
  · refine @readDocument_of_ascii tree file partsText _ partsLabelled (Text.toList_ofString_ofList _)
      rfl ?_ ?_ ?_
    · decide
    · decide +kernel
    · decide

/-- The part that the root document refers to. -/
def target : Target := ⟨file, "/X"⟩

/-- What is gathered: that part. -/
def gathering : Gathering := ({} : Gathering).extend target textSchema

/-- The shelf after the root document has been read. -/
def shelf : Shelf := ({} : Shelf).add root document

/-- The part is taken in because of the second property. -/
theorem gatherFrom_outcome : (gatherFrom tree shelf root document).outcome = .ok gathering := by
  have hsource : sourceAt? tree shelf target = some textSchema := by
    exact (sourceAt?_eq_some_iff _ _ _ _).2 ⟨parts, readDocument_tree.2, rfl⟩
  rw [gatherFrom_outcome_eq_ok_iff]
  exact .new rfl (by decide) hsource rfl (.close _ _ (.done _))

/-- The loaded document. -/
def loaded : Value := documentOf "#/components/schemas/X" [(.text "X", textSchema)]

/-- The root document is loaded without a fault. -/
theorem load_outcome : (load tree {} root).2.outcome = .ok loaded := by
  have hnew : Shelf.find? {} root = none := rfl
  have hfetch : Shelf.fetch {} tree root = .ok (document, shelf) := by
    rw [Shelf.fetch, hnew, readDocument_tree.1]
    rfl
  have hinstall : (install root (document.relocated root root) gathering.schemas).toOption
      = some loaded := rfl
  have hloaded : loaded = loaded.unlabelled := rfl
  rw [load_of_fetch rfl hfetch rfl, bundle_outcome_eq_ok_iff]
  exact ⟨gathering, loaded, gatherFrom_outcome, eq_ok_of_toOption hinstall, hloaded⟩

/-- The node of the schema: its second property refers to the bundled schema, its first one to the
other file. -/
def body : Node :=
  .object "#/components/schemas/A" [
    (.text Reference.refKey, .reference "#/components/schemas/A/properties/$ref" "a#/X"),
    (.text "b", .reference "#/components/schemas/A/properties/b" "#/components/schemas/X")]
    [] none none

/-- The nodes of the loaded document. -/
def found : List Component :=
  [⟨.text "A", body⟩, ⟨.text "X", .string "#/components/schemas/X" none⟩]

theorem components_loaded : Schema.components loaded = .ok found := by
  cbv

/-- The reference of the second property stays inside the document. -/
theorem isLocal_of_load_property : (load tree {} root).2.outcome = .ok loaded ∧
    Schema.components loaded = .ok found ∧ ⟨.text "A", body⟩ ∈ found ∧
      NodeAt [.property (.text "b")] (.reference "#/components/schemas/A/properties/b"
        "#/components/schemas/X") body ∧
      Scalar.text "A" ≠ .text Reference.refKey ∧ AvoidsRefKey [.property (.text "b")] ∧
        ∃ table schema label entries ref, componentSchemas loaded = .ok table ∧
          (Scalar.text "A", schema) ∈ table ∧
            StandsAt [.property (.text "b")] (.mapping label entries) schema ∧
              Entries.get? Reference.refKey entries = some ref ∧
                shown ref = .ok "#/components/schemas/X" ∧
                  ∀ text, ref = .text text → "#/components/schemas/X" = text ∧
                    Reference.isLocal "#/components/schemas/X" = true := by
  have hmem : (⟨.text "A", body⟩ : Component) ∈ found := List.mem_cons_self
  have hnode : NodeAt [.property (.text "b")] (.reference "#/components/schemas/A/properties/b"
      "#/components/schemas/X") body :=
    .property (List.mem_cons_of_mem _ List.mem_cons_self) (.here _)
  have hname : Scalar.text "A" ≠ .text Reference.refKey := by decide
  have avoids : AvoidsRefKey [.property (.text "b")] := by
    intro name hmem
    obtain rfl := Step.property.inj (List.mem_singleton.1 hmem)
    decide
  exact ⟨load_outcome, components_loaded, hmem, hnode, hname, avoids,
    isLocal_of_load load_outcome components_loaded hmem hnode hname avoids⟩

/-- The reference of the first property, which is a text, still leads to the other file. -/
theorem load_leaves_external_reference : (load tree {} root).2.outcome = .ok loaded ∧
    Schema.components loaded = .ok found ∧ ⟨.text "A", body⟩ ∈ found ∧
      NodeAt [.property (.text Reference.refKey)] (.reference
        "#/components/schemas/A/properties/$ref" "a#/X") body ∧
      StandsAt [.property (.text Reference.refKey)] (refTo "a#/X")
        (schemaOf "#/components/schemas/X") ∧
      componentSchemas loaded
        = .ok [(.text "A", schemaOf "#/components/schemas/X"), (.text "X", textSchema)] ∧
      Reference.isLocal "a#/X" = false := by
  have object : IsObjectSchema [(.text "type", .text "object"), (.text "properties", .table
      [(.text Reference.refKey, refTo "a#/X"),
        (.text "b", refTo "#/components/schemas/X")])] := by
    refine ⟨?_, ?_, ?_⟩ <;> rfl
  refine ⟨load_outcome, components_loaded, List.mem_cons_self,
    .property List.mem_cons_self (.here _), ?_, by cbv, by decide⟩
  exact .property object (by cbv) List.mem_cons_self (.here _)

end RefProperty

end SchemaCodecs
