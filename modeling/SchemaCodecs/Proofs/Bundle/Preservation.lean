/-
# What bundling keeps of the root document

Bundling redirects the references of the root document that lead out of it and adds the schemas that
they lead to at the end of its table of schemas.  Nothing else changes: every schema of the document
keeps its place and its content, unless all it says is that it is the schema of its own name, and the
rest of the document stays as it is.

* `installAll_eq` : the table after all schemas have been added;
* `KeepsEntry` : what becomes of an entry of the table;
* `names_of_gatherFrom` : the order of the schemas that are added;
* `bundle_keeps_own` : the whole document.
-/
import SchemaCodecs.Proofs.Bundle.Naming
import SchemaCodecs.Proofs.Bundle.Unlabelled
import SchemaCodecs.Proofs.Declaration.Mention
import SchemaCodecs.Proofs.Value.Entries

namespace SchemaCodecs

open Value (KeysApart)

/-! ## The table of schemas -/

/-- A value without labels that is the same as a self reference is that self reference. -/
theorem same_selfReference_iff {v : Value} (free : v.AliasFree) (name : Text) :
    v.same (selfReference name) = true ↔ v = selfReference name := by
  constructor
  · intro h
    cases v with
    | mapping label entries =>
      obtain ⟨rfl, -⟩ := (Value.aliasFree_mapping_iff _ _).1 free
      rw [selfReference, Value.same, Bool.and_eq_true, beq_iff_eq] at h
      obtain ⟨⟨key, value⟩, rfl⟩ := List.length_eq_one_iff.1 h.1
      obtain ⟨found, hlookup, hvalue⟩ := (Value.sameEntries_iff _ _).1 h.2 _ List.mem_cons_self
      obtain ⟨entry, hentry, hkey, rfl⟩ := Value.exists_entry_of_lookup hlookup
      obtain rfl := List.mem_singleton.1 hentry
      rw [Scalar.same_comm, Scalar.same_text_iff] at hkey
      simp only at hkey hvalue
      subst hkey
      cases value with
      | scalar s =>
        rw [Value.same, Scalar.same_text_iff] at hvalue
        rw [hvalue]
        rfl
      | _ => simp [Value.same] at hvalue
    | _ => simp [selfReference, Value.same] at h
  · rintro rfl
    simp [selfReference, Value.same, Value.sameEntries, Entries.lookup]

/-- The entry of a schema that is added to a table. -/
def Bundled.entry (root : Path) (schema : Bundled) : Scalar × Value :=
  (.text schema.name, schema.body root)

/-- An entry of the table of schemas after a schema has been added: a self reference gives way to the
schema of its name. -/
def settle (root : Path) (entry : Scalar × Value) (schema : Bundled) : Scalar × Value :=
  if entry.1.same (.text schema.name) && entry.2.same (selfReference schema.name) then
    (entry.1, schema.body root)
  else entry

section Table

variable {root : Path} {schemas next final : Entries} {schema : Bundled} {bundled : List Bundled}

@[simp] theorem settle_fst (entry : Scalar × Value) : (settle root entry schema).1 = entry.1 := by
  unfold settle
  split <;> rfl

theorem settle_of_ne {entry : Scalar × Value} (h : entry.1.same (.text schema.name) = false) :
    settle root entry schema = entry := by
  rw [settle, h, Bool.false_and, if_neg Bool.false_ne_true]

/-- A table after one schema has been added: its entries are settled, and the schema comes last if
its name is new. -/
theorem installSchema_eq (apart : KeysApart schemas)
    (h : installSchema root schemas schema = .ok next) :
    next = schemas.map (settle root · schema) ++
      if Entries.hasKey schema.name schemas then [] else [schema.entry root] := by
  unfold installSchema addSchema at h
  split at h
  · next hnone =>
    cases h
    have hsettled : schemas.map (settle root · schema) = schemas.map id :=
      List.map_congr_left fun entry hentry =>
        settle_of_ne (Entries.same_eq_false_of_get? hnone hentry)
    rw [hsettled, List.map_id, Entries.hasKey, hnone]
    rfl
  · next own hown =>
    have hsettled : ∀ entry ∈ schemas, settle root entry schema =
        if entry.1.same (.text schema.name) && own.same (selfReference schema.name) then
          (entry.1, schema.body root) else entry := by
      intro entry hentry
      unfold settle
      cases hkey : entry.1.same (.text schema.name) with
      | false => rfl
      | true => rw [Entries.eq_of_get? apart hown hentry hkey]
    rw [List.map_congr_left hsettled, Entries.hasKey, hown]
    split at h
    · next hself =>
      cases h
      rw [Entries.put_eq_map apart hown]
      simp [hself]
    · next hself =>
      split at h
      · cases h
        simp [hself]
      · cases h

/-- Adding a schema repeats no key. -/
theorem keysApart_of_installSchema (apart : KeysApart schemas)
    (h : installSchema root schemas schema = .ok next) : KeysApart next := by
  have hsettled : KeysApart (schemas.map (settle root · schema)) := by
    refine List.pairwise_map.2 (apart.imp fun h => ?_)
    rw [settle_fst, settle_fst]
    exact h
  rw [installSchema_eq apart h]
  split
  · rwa [List.append_nil]
  · next hnew =>
    have hnone : Entries.get? schema.name schemas = none := by simpa [Entries.hasKey] using hnew
    refine List.pairwise_append.2 ⟨hsettled, List.pairwise_singleton _ _, ?_⟩
    intro entry hentry last hlast
    obtain ⟨before, hbefore, rfl⟩ := List.mem_map.1 hentry
    rw [settle_fst, List.mem_singleton.1 hlast]
    exact Entries.same_eq_false_of_get? hnone hbefore

/-- An entry with another key than the names of some schemas stays when they are added. -/
theorem foldl_settle_of_ne {entry : Scalar × Value}
    (h : ∀ schema ∈ bundled, entry.1.same (.text schema.name) = false) :
    bundled.foldl (settle root) entry = entry := by
  induction bundled with
  | nil => rfl
  | cons first rest ih =>
    obtain ⟨hfirst, hrest⟩ := List.forall_mem_cons.1 h
    rw [List.foldl_cons, settle_of_ne hfirst, ih hrest]

/-- An entry with the name of a schema for its key changes when this schema is added. -/
theorem foldl_settle_of_mem (names : (bundled.map (·.name)).Nodup) (hschema : schema ∈ bundled)
    {entry : Scalar × Value} (hkey : entry.1 = .text schema.name) :
    bundled.foldl (settle root) entry = settle root entry schema := by
  induction bundled with
  | nil => cases hschema
  | cons first rest ih =>
    rw [List.map_cons, List.nodup_cons] at names
    rw [List.foldl_cons]
    rcases List.mem_cons.1 hschema with rfl | hschema
    · refine foldl_settle_of_ne fun other hother => ?_
      rw [settle_fst, hkey, Scalar.same_text_eq_false_iff]
      intro heq
      exact names.1 (Scalar.text.inj heq ▸ List.mem_map_of_mem hother)
    · have hne : entry.1.same (.text first.name) = false := by
        rw [hkey, Scalar.same_text_eq_false_iff]
        intro heq
        exact names.1 (Scalar.text.inj heq ▸ List.mem_map_of_mem hschema)
      rw [settle_of_ne hne, ih names.2 hschema]

/-- **The table.**  After all schemas have been added, the entries of the table are settled, and the
schemas with new names come after them. -/
theorem installAll_eq (apart : KeysApart schemas) (names : (bundled.map (·.name)).Nodup)
    (h : installAll root schemas bundled = .ok final) :
    final = schemas.map (bundled.foldl (settle root)) ++
      (bundled.filter fun schema => !Entries.hasKey schema.name schemas).map (·.entry root) := by
  induction bundled generalizing schemas with
  | nil =>
    cases h
    simp
  | cons first rest ih =>
    obtain ⟨next, hfirst, hrest⟩ := (installAll_cons_eq_ok_iff _ _ _ _ _).1 h
    rw [List.map_cons, List.nodup_cons] at names
    have hother : ∀ schema ∈ rest, first.name ≠ schema.name := fun schema hschema heq =>
      names.1 (heq ▸ List.mem_map_of_mem (f := Bundled.name) hschema)
    -- The first schema is none of the others, so it does not matter for which of them are new.
    have hnew : (rest.filter fun schema => !Entries.hasKey schema.name next)
        = rest.filter fun schema => !Entries.hasKey schema.name schemas := by
      refine List.filter_congr fun schema hschema => ?_
      rw [Entries.hasKey, Entries.hasKey, get?_of_installSchema_of_ne hfirst (hother schema hschema)]
    have hentry : rest.foldl (settle root) (first.entry root) = first.entry root := by
      refine foldl_settle_of_ne fun schema hschema => ?_
      rw [Bundled.entry, Scalar.same_text_eq_false_iff]
      exact fun heq => hother schema hschema (Scalar.text.inj heq)
    rw [ih (keysApart_of_installSchema apart hfirst) names.2 hrest, hnew,
      installSchema_eq apart hfirst, List.map_append, List.map_map, List.filter_cons,
      List.append_assoc]
    refine congrArg₂ _ rfl ?_
    cases Entries.hasKey first.name schemas with
    | true => simp
    | false => simp [hentry]

/-- What becomes of an entry of the table: it keeps its key, and its value unless that is a self
reference and a schema of its name is added; any other value under the name of such a schema equals
the source of the schema. -/
structure KeepsEntry (root : Path) (bundled : List Bundled) (entry after : Scalar × Value) :
    Prop where
  /-- The key stays. -/
  key : after.1 = entry.1
  /-- The value stays, unless a schema takes its place. -/
  kept : (∀ schema ∈ bundled, entry ≠ (.text schema.name, selfReference schema.name)) →
    after.2 = entry.2
  /-- A schema takes the place of a self reference. -/
  replaced : ∀ schema ∈ bundled, entry = (.text schema.name, selfReference schema.name) →
    after.2 = schema.body root
  /-- Any other value under its name equals it. -/
  equal : ∀ schema ∈ bundled, entry.1 = .text schema.name →
    entry.2 ≠ selfReference schema.name → entry.2.equals schema.source = true

/-- Schemas are added only if any other value under the name of one equals its source. -/
theorem equals_source_of_installAll (apart : KeysApart schemas)
    (names : (bundled.map (·.name)).Nodup) (h : installAll root schemas bundled = .ok final)
    {entry : Scalar × Value} (hentry : entry ∈ schemas) (hschema : schema ∈ bundled)
    (hkey : entry.1 = .text schema.name)
    (hdiffers : entry.2.same (selfReference schema.name) = false) :
    entry.2.equals schema.source = true := by
  obtain ⟨-, fits⟩ := get?_of_installAll h names hschema
  have hfound : Entries.get? schema.name schemas = some entry.2 := by
    rw [Entries.get?, ← hkey]
    exact apart.lookup_eq hentry
  obtain ⟨v, hv, hequal⟩ := fits (by rw [hfound, keepsOwn, Option.any_some, hdiffers]; rfl)
  rw [hfound] at hv
  cases hv
  exact hequal

/-- This becomes of an entry without labels. -/
theorem keepsEntry_foldl (apart : KeysApart schemas) (names : (bundled.map (·.name)).Nodup)
    (h : installAll root schemas bundled = .ok final) {entry : Scalar × Value}
    (hentry : entry ∈ schemas) (free : entry.2.AliasFree) :
    KeepsEntry root bundled entry (bundled.foldl (settle root) entry) := by
  have hself : ∀ schema : Bundled, entry.1 = .text schema.name →
      (entry.2.same (selfReference schema.name) = true ↔
        entry = (.text schema.name, selfReference schema.name)) := by
    intro schema hkey
    rw [same_selfReference_iff free, Prod.ext_iff, and_iff_right hkey]
  by_cases hnamed : ∃ schema ∈ bundled, entry.1 = .text schema.name
  · obtain ⟨schema, hschema, hkey⟩ := hnamed
    have hother : ∀ other ∈ bundled, entry.1 = .text other.name → other = schema :=
      fun other hother hkey' => List.inj_on_of_nodup_map names hother hschema
        (Scalar.text.inj (hkey'.symm.trans hkey))
    have hsame : entry.1.same (.text schema.name) = true := (Scalar.same_text_iff _ _).2 hkey
    rw [foldl_settle_of_mem names hschema hkey]
    refine ⟨settle_fst entry, fun hkept => ?_, fun other hmem hentry => ?_, ?_⟩
    · have hdiffers : ¬ entry.2.same (selfReference schema.name) = true := fun heq =>
        hkept schema hschema ((hself schema hkey).1 heq)
      rw [settle, if_neg (by simp [hdiffers])]
    · obtain rfl := hother other hmem (hentry ▸ rfl)
      rw [settle, hsame, (hself other hkey).2 hentry, Bool.and_true, if_pos rfl]
    · intro other hmem hkey' hdiffers
      refine equals_source_of_installAll apart names h hentry hmem hkey' ?_
      rwa [Bool.eq_false_iff, ne_eq, same_selfReference_iff free]
  · push Not at hnamed
    rw [foldl_settle_of_ne fun schema hschema =>
      (Scalar.same_text_eq_false_iff _ _).2 (hnamed schema hschema)]
    refine ⟨rfl, fun _ => rfl, fun schema hschema heq => ?_, fun schema hschema hkey => ?_⟩
    · exact absurd (heq ▸ rfl) (hnamed schema hschema)
    · exact absurd hkey (hnamed schema hschema)

end Table

/-! ## The order of the schemas -/

/-- First occurrences of texts of which one more comes last. -/
theorem distinctTexts_append_singleton (texts : List Text) (s : Text) :
    distinctTexts (texts ++ [s])
      = if s ∈ texts then distinctTexts texts else distinctTexts texts ++ [s] := by
  unfold distinctTexts
  induction texts with
  | nil => rfl
  | cons t rest ih =>
    rw [List.cons_append, distinctBy, ih, distinctBy]
    by_cases hmem : s ∈ rest
    · rw [if_pos hmem, if_pos (List.mem_cons_of_mem _ hmem)]
    · rw [if_neg hmem, List.filter_append]
      by_cases heq : s = t
      · simp [heq]
      · rw [if_neg (by simp [heq, hmem])]
        simp [Ne.symm heq]

/-- Each name has one schema, in the order in which the targets have been taken in. -/
def InOrder (gathering : Gathering) : Prop :=
  gathering.schemas.map (·.name) = distinctTexts (gathering.targets.reverse.map Target.name)

/-- A new target is put in order. -/
theorem InOrder.extend {gathering : Gathering} (h : InOrder gathering) (target : Target)
    (source : Value) : InOrder (gathering.extend target source) := by
  have hnames : ((gathering.extend target source).schemas.map (·.name)) = _ :=
    Gathering.names_putSchema ⟨target.name, target, source⟩ gathering.schemas
  have htargets : (gathering.extend target source).targets = target :: gathering.targets := rfl
  rw [InOrder, hnames, htargets, List.reverse_cons, List.map_append, List.map_singleton,
    distinctTexts_append_singleton, ← h]
  refine if_congr ?_ rfl rfl
  rw [h, mem_distinctTexts_iff]

/-- **The order.**  The schemas that are gathered from a root document are named in the order in which
their names first occur among the targets. -/
theorem names_of_gatherFrom {tree : FileTree} {shelf : Shelf} {root : Path} {document : Value}
    {gathering : Gathering} (h : (gatherFrom tree shelf root document).outcome = .ok gathering) :
    gathering.schemas.map (·.name) = distinctTexts (gathering.targets.reverse.map Target.name) := by
  -- At first there are neither schemas nor targets.
  have first : InOrder {} := rfl
  refine ((gatherFrom_outcome_eq_ok_iff gathering).1 h).preserves ?_ first
  exact fun _ target source _ _ _ ordered => ordered.extend target source

/-! ## The document -/

namespace Value

@[simp] theorem isTruthy_withRefs (f : Text → Text) (v : Value) :
    (withRefs f v).isTruthy = v.isTruthy := by
  cases v with
  | sequence items => cases items <;> rfl
  | mapping label entries => cases entries <;> rfl
  | _ => rfl

theorem get?_withRefsEntries (f : Text → Text) {key : Text} (hkey : key ≠ Reference.refKey)
    (entries : Entries) :
    Entries.get? key (withRefsEntries f entries) = (Entries.get? key entries).map (withRefs f) := by
  rw [withRefsEntries_eq_map]
  refine Entries.get?_map (fun v => ?_) entries
  rw [withRefsAt, if_neg (by simp [isRefKey_text_of_ne hkey])]

@[simp] theorem hasKey_withRefsEntries (f : Text → Text) (key : Text) (entries : Entries) :
    Entries.hasKey key (withRefsEntries f entries) = Entries.hasKey key entries := by
  rw [withRefsEntries_eq_map, Entries.hasKey_map]

end Value

/-- A part that has to be a mapping has its references replaced with the whole. -/
theorem mappingPart_withRefs (f : Text → Text) {key : Text} (hkey : key ≠ Reference.refKey)
    (entries : Entries) : mappingPart key (Value.withRefsEntries f entries)
      = (mappingPart key entries).map fun part => (part.1, Value.withRefsEntries f part.2) := by
  rw [mappingPart, mappingPart, Value.get?_withRefsEntries f hkey,
    Entries.bind_truthy?_map (Value.isTruthy_withRefs f)]
  cases (Entries.get? key entries).bind Value.truthy? with
  | none => rfl
  | some v => cases v <;> rfl

namespace Value

/-- What stands under a key of a value without labels has none. -/
theorem AliasFree.under {key : Text} {v part : Value} (h : v.AliasFree)
    (hpart : v.under? key = some part) : part.AliasFree := by
  cases v with
  | mapping label entries =>
    obtain ⟨entry, hentry, -, rfl⟩ := exists_entry_of_lookup hpart
    exact ((aliasFree_mapping_iff _ _).1 h).2 entry hentry
  | _ => cases hpart

theorem AliasFree.withRefs {v : Value} (h : v.AliasFree) (f : Text → Text) :
    (v.withRefs f).AliasFree := by
  rw [← unlabelled_of_aliasFree h, ← unlabelled_withRefs]
  exact aliasFree_unlabelled _

/-- Entries after a value without labels has been put have none if they had none before. -/
theorem aliasFree_put {key : Text} {label : Option Nat} {v : Value} {entries : Entries}
    (h : (mapping label entries).AliasFree) (hv : v.AliasFree) :
    (mapping label (Entries.put (.text key) v entries)).AliasFree := by
  rw [aliasFree_mapping_iff] at h ⊢
  refine ⟨h.1, fun entry hentry => ?_⟩
  rcases Entries.mem_put hentry with heq | hentry
  · rwa [heq]
  · exact h.2 entry hentry

end Value

/-- The table of schemas in a document that repeats no key repeats none. -/
theorem keysApart_of_mappingParts {label componentsLabel schemasLabel : Option Nat}
    {entries components schemas : Entries} (distinct : (Value.mapping label entries).Distinct)
    (hcomponents : mappingPart componentsKey entries = .ok (componentsLabel, components))
    (hschemas : mappingPart schemasKey components = .ok (schemasLabel, schemas)) :
    KeysApart schemas := by
  have empty : (Value.table []).Distinct := .mapping .nil (by simp)
  have inside : (Value.mapping componentsLabel components).Distinct :=
    of_mappingPart hcomponents empty distinct fun _ _ => Value.Distinct.under
  have own : (Value.mapping schemasLabel schemas).Distinct :=
    of_mappingPart hschemas empty inside fun _ _ => Value.Distinct.under
  cases own with
  | mapping apart _ => exact apart

/-- Installing in a document without labels changes the table of schemas at its only place, and there
are no labels before or after. -/
theorem exists_table_of_install {root : Path} {final : Value} {entries : Entries}
    {bundled : List Bundled} (free : (Value.table entries).AliasFree) (some : bundled ≠ [])
    (h : install root (.table entries) bundled = .ok final) :
    ∃ components schemas table, mappingPart componentsKey entries = .ok (none, components) ∧
      mappingPart schemasKey components = .ok (none, schemas) ∧
        installAll root schemas bundled = .ok table ∧
        (Value.table schemas).AliasFree ∧ final.AliasFree ∧
          final = .table (Entries.put (.text componentsKey)
            (.table (Entries.put (.text schemasKey) (.table table) components)) entries) := by
  obtain ⟨label, entries', componentsLabel, components, schemasLabel, schemas, table, heq,
    hcomponents, hschemas, hall, rfl⟩ := exists_parts_of_install some h
  cases heq
  have freeComponents : (Value.mapping componentsLabel components).AliasFree :=
    of_mappingPart hcomponents rfl free fun _ _ => Value.AliasFree.under
  have freeSchemas : (Value.mapping schemasLabel schemas).AliasFree :=
    of_mappingPart hschemas rfl freeComponents fun _ _ => Value.AliasFree.under
  obtain ⟨rfl, -⟩ := (Value.aliasFree_mapping_iff _ _).1 freeComponents
  obtain ⟨rfl, hentries⟩ := (Value.aliasFree_mapping_iff _ _).1 freeSchemas
  have freeTable : (Value.table table).AliasFree :=
    (Value.aliasFree_mapping_iff _ _).2 ⟨rfl, forall_of_installAll hall hentries
      fun _ _ _ => Value.aliasFree_unlabelled _⟩
  exact ⟨components, schemas, table, hcomponents, hschemas, hall, freeSchemas,
    Value.aliasFree_put free (Value.aliasFree_put freeComponents freeTable), rfl⟩

/-- **What bundling keeps.**  References of the root document that start with the mark of local ones
stay.  Without schemas to add, the document only has its other references redirected.  Otherwise this
is what happens to all of it but the table of its schemas, which is put in its place, or at the end if
there is none: the entries of the table stay in order, each keeping its value with references
redirected, unless that is a self reference and a schema of its name is added; and the schemas with
new names come after them in the order in which the names first occur among the targets. -/
theorem bundle_keeps_own {tree : FileTree} {shelf : Shelf} {root : Path} {document result : Value}
    (plain : document.AliasFree) (distinct : document.Distinct)
    (h : (bundle tree shelf root document).2.outcome = .ok result) :
    ∃ gathering, (gatherFrom tree shelf root document).outcome = .ok gathering ∧
      gathering.schemas.map (·.name)
        = distinctTexts (gathering.targets.reverse.map Target.name) ∧
      (∀ ref, Reference.isLocal ref = true → redirectRef root root ref = ref) ∧
      (gathering.schemas = [] → result = document.withRefs (redirectRef root root)) ∧
      (gathering.schemas ≠ [] → ∃ entries components own front,
        document = .table entries ∧ Schema.tableAt componentsKey entries = .ok components ∧
        Schema.tableAt schemasKey components = .ok own ∧
        List.Forall₂ (KeepsEntry root gathering.schemas)
          (Value.withRefsEntries (redirectRef root root) own) front ∧
        result = .table (Entries.put (.text componentsKey)
          (.table (Entries.put (.text schemasKey)
            (.table (front ++ (gathering.schemas.filter fun schema =>
              !Entries.hasKey schema.name own).map (·.entry root)))
            (Value.withRefsEntries (redirectRef root root) components)))
          (Value.withRefsEntries (redirectRef root root) entries))) := by
  obtain ⟨gathering, final, hgather, hinstall, rfl⟩ := (bundle_outcome_eq_ok_iff _ _ _ _ _).1 h
  rw [Value.relocated_eq_withRefs root root plain] at hinstall
  refine ⟨gathering, hgather, names_of_gatherFrom hgather,
    fun ref href => redirectRef_root_of_isLocal root href, fun hnone => ?_, fun hsome => ?_⟩
  · rw [hnone] at hinstall
    cases hinstall
    exact Value.unlabelled_of_aliasFree (plain.withRefs _)
  · -- A document in which schemas are installed is a mapping.
    obtain ⟨label, entries', -, -, -, -, -, hmapping, -⟩ := exists_parts_of_install hsome hinstall
    cases document with
    | mapping label entries =>
      obtain ⟨rfl, -⟩ := (Value.aliasFree_mapping_iff _ _).1 plain
      obtain ⟨components', own', table, hcomponents, hschemas, hall, freeOwn, free, rfl⟩ :=
        exists_table_of_install (plain.withRefs _) hsome hinstall
      have apart : KeysApart own' :=
        keysApart_of_mappingParts (distinct.withRefs _) hcomponents hschemas
      have names := (registered_of_gatherFrom hgather).names
      rw [mappingPart_withRefs _ (by decide)] at hcomponents
      obtain ⟨⟨_, components⟩, hpart, heq⟩ := exists_of_map_eq_ok hcomponents
      cases heq
      rw [mappingPart_withRefs _ (by decide)] at hschemas
      obtain ⟨⟨_, own⟩, hown, heq⟩ := exists_of_map_eq_ok hschemas
      cases heq
      refine ⟨entries, components, own, (Value.withRefsEntries (redirectRef root root) own).map
        (gathering.schemas.foldl (settle root)), rfl, tableAt_of_mappingPart hpart,
        tableAt_of_mappingPart hown, ?_, ?_⟩
      · refine List.forall₂_map_right_iff.2 (List.forall₂_same.2 fun entry hentry => ?_)
        exact keepsEntry_foldl apart names hall hentry
          (((Value.aliasFree_mapping_iff _ _).1 freeOwn).2 entry hentry)
      · rw [Value.unlabelled_of_aliasFree free, installAll_eq apart names hall]
        simp only [Value.hasKey_withRefsEntries]
    | _ => simp [Value.withRefs] at hmapping

/-! ## A document with a schema of its own -/

namespace OwnSchemas

open SharedName (root refTo)
open SlashedName (tree slashed plain textSchema parts readDocument_file)

/-- A document with two schemas: one that only refers to the schema of its name in another file, and
one that refers to another schema there. -/
def documentOf (own other : Value) (added : Entries) : Value :=
  .table [(.text componentsKey, .table [
    (.text schemasKey, .table ([(.text "z", own), (.text "B", other)] ++ added))]),
    (.text "info", refTo "#/components")]

/-- The root document. -/
def document : Value := documentOf (refTo "a.yaml#/z") (refTo "a.yaml#/x~1y") []

/-- What is gathered: both schemas. -/
def gathering : Gathering :=
  (({} : Gathering).extend plain textSchema).extend slashed textSchema

/-- Both targets are taken in. -/
theorem gatherFrom_outcome : (gatherFrom tree {} root document).outcome = .ok gathering := by
  have hslashed : sourceAt? tree {} slashed = some textSchema :=
    (sourceAt?_eq_some_iff _ _ _ _).2 ⟨parts, readDocument_file, rfl⟩
  have hplain : sourceAt? tree {} plain = some textSchema :=
    (sourceAt?_eq_some_iff _ _ _ _).2 ⟨parts, readDocument_file, rfl⟩
  rw [gatherFrom_outcome_eq_ok_iff]
  refine .new rfl (by decide) hplain rfl (.close _ _ ?_)
  refine .new rfl (by decide) hslashed rfl (.close _ _ ?_)
  exact .stay rfl (by simp) (.done _)

/-- The bundled document: the self reference has given way to the schema, and the other schema has
been added. -/
def bundled : Value :=
  documentOf textSchema (refTo "#/components/schemas/x/y") [(.text "x/y", textSchema)]

/-- The root document is bundled without a fault. -/
theorem bundle_outcome : (bundle tree {} root document).2.outcome = .ok bundled := by
  rw [bundle_outcome_eq_ok_iff]
  have hinstall : (install root (document.relocated root root) gathering.schemas).toOption
      = some bundled := rfl
  exact ⟨gathering, bundled, gatherFrom_outcome, eq_ok_of_toOption hinstall, rfl⟩

theorem distinct_refTo (ref : Text) : (refTo ref).Distinct :=
  .single (.scalar _)

/-- The root document repeats nothing. -/
theorem distinct_document : document.Distinct := by
  have schemas : (Value.table [(.text "z", refTo "a.yaml#/z"),
      (.text "B", refTo "a.yaml#/x~1y")]).Distinct := by
    refine .mapping (by unfold KeysApart; decide) ?_
    simp [distinct_refTo]
  have components := @Value.Distinct.single none (.text schemasKey) _ schemas
  refine .mapping (by unfold KeysApart; decide) ?_
  simpa [distinct_refTo] using components

/-- What is kept of the document: both schemas, of which the first one has given way to the schema of
its name, and all the rest. -/
theorem bundle_keeps_own_document : document.AliasFree ∧ document.Distinct ∧
    (bundle tree {} root document).2.outcome = .ok bundled ∧
      ∃ front, List.Forall₂ (KeepsEntry root gathering.schemas)
          [(.text "z", selfReference "z"), (.text "B", refTo "#/components/schemas/x/y")] front ∧
        bundled = .table [(.text componentsKey, .table [(.text schemasKey,
          .table (front ++ [(.text "x/y", textSchema)]))]), (.text "info", refTo "#/components")] := by
  have plain : document.AliasFree := rfl
  obtain ⟨gathered, hgather, -, -, -, hkeeps⟩ :=
    bundle_keeps_own plain distinct_document bundle_outcome
  cases gatherFrom_outcome.symm.trans hgather
  obtain ⟨entries, components, own, front, hdocument, hcomponents, hown, hsettles, hbundled⟩ :=
    hkeeps (List.cons_ne_nil _ _)
  cases hdocument
  cases hcomponents
  cases hown
  exact ⟨plain, distinct_document, bundle_outcome, front, hsettles, hbundled⟩

end OwnSchemas

end SchemaCodecs
