/-
# Gathering and installing without labels

The search does the same with references that come to the same: both stay inside, or lead to targets
that are known.  What it gathers from documents without labels is what it gathers from those with
labels, without these.  The same holds for adding schemas to a document, unless one of the mappings
they are added to is repeated.

* `Alike` : tasks that come to the same;
* `conflicts_unlabelled`, `takeIn_unlabelled` : gathering;
* `install_unlabelled` : installing.
-/
import SchemaCodecs.Proofs.Bundle.SelfContained
import SchemaCodecs.Proofs.Bundle.Unfolding

namespace SchemaCodecs

/-! ## Tasks that come to the same -/

/-- Two lists of tasks come to the same, given the known targets: their references are equal, or both
are passed. -/
inductive Alike (root : Path) : List Target → List Task → List Task → Prop where
  /-- No task remains. -/
  | done (known : List Target) : Alike root known [] []
  /-- A report. -/
  | close {known : List Target} {rest rest' : List Task} (ref name : Text)
      (next : Alike root known rest rest') :
    Alike root known (.close ref name :: rest) (.close ref name :: rest')
  /-- A reference without a meaning, at which both end. -/
  | fault {known : List Target} {base : Path} {ref : Text} {fault : Fault}
      (means : meaning root base ref = .error fault) (rest rest' : List Task) :
    Alike root known (.follow base ref :: rest) (.follow base ref :: rest')
  /-- A reference to a target, which is known from there on. -/
  | lead {known : List Target} {base : Path} {ref : Text} {target : Target}
      {rest rest' : List Task} (means : meaning root base ref = .ok (.external target))
      (next : Alike root (target :: known) rest rest') :
    Alike root known (.follow base ref :: rest) (.follow base ref :: rest')
  /-- Two references that are passed. -/
  | pass {known : List Target} {base : Path} {ref ref' : Text} {rest rest' : List Task}
      (passes : Passes root known base ref) (passes' : Passes root known base ref')
      (next : Alike root known rest rest') :
    Alike root known (.follow base ref :: rest) (.follow base ref' :: rest')

section Tasks

variable {root base : Path} {known more : List Target} {tasks tasks' rest rest' : List Task}

theorem Passes.mono {ref : Text} (h : Passes root known base ref) (hsub : known ⊆ more) :
    Passes root more base ref := by
  obtain ⟨meant, hmeant, hknown⟩ := h
  exact ⟨meant, hmeant, fun target htarget => hsub (hknown target htarget)⟩

/-- What comes to the same does so when more is known. -/
theorem Alike.mono (h : Alike root known tasks tasks') (hsub : known ⊆ more) :
    Alike root more tasks tasks' := by
  induction h generalizing more with
  | done _ => exact .done _
  | close ref name _ ih => exact .close ref name (ih hsub)
  | fault means rest rest' => exact .fault means rest rest'
  | lead means _ ih => exact .lead means (ih (List.cons_subset_cons _ hsub))
  | pass passes passes' _ ih => exact .pass (passes.mono hsub) (passes'.mono hsub) (ih hsub)

/-- Tasks come to the same one after the other. -/
theorem Alike.append (h : Alike root known tasks tasks') (hrest : Alike root known rest rest') :
    Alike root known (tasks ++ rest) (tasks' ++ rest') := by
  induction h with
  | done _ => exact hrest
  | close ref name _ ih => exact .close ref name (ih hrest)
  | fault means others others' => exact .fault means _ _
  | lead means _ ih => exact .lead means (ih (hrest.mono (List.subset_cons_self _ _)))
  | pass passes passes' _ ih => exact .pass passes passes' (ih hrest)

/-- A reference that keeps its meaning when it is redirected is passed afterwards if it was before. -/
theorem Passes.redirectRef {ref : Text} (h : Passes root known base ref)
    (hkeeps : base = root ∨ meaning root base (redirectRef root base ref) = meaning root base ref) :
    Passes root known base (redirectRef root base ref) := by
  rcases hkeeps with rfl | hkeeps
  · -- In the root document what is redirected stays inside.
    obtain ⟨meant, hmeant, -⟩ := h
    have hlocal := isLocal_redirectRef hmeant
    refine ⟨.itself, ?_, by simp⟩
    rw [meaning, hlocal, beq_self_eq_true]
    rfl
  · obtain ⟨meant, hmeant, hknown⟩ := h
    exact ⟨meant, hkeeps.trans hmeant, hknown⟩

/-- The references in a list of places, as they are met and as they stand, come to the same. -/
theorem alike_met {places : List Site} (steady : Site.Steady (redirectRef root base) places)
    (keeps : ∀ site, Site.MetAgain places site →
      base = root ∨ meaning root base (redirectRef root base site.ref) = meaning root base site.ref)
    {before after : List Site} (hplaces : places = before ++ after) {repeated : Repeated}
    (remembers : Site.Remembers (redirectRef root base) before repeated)
    (known : List Target) (passes : ∀ site ∈ before, Passes root known base site.ref) :
    Alike root known ((Site.met (redirectRef root base) repeated after).map (Task.follow base))
      ((after.map Site.ref).map (Task.follow base)) := by
  induction after generalizing before repeated known with
  | nil => exact .done _
  | cons site rest ih =>
    rw [Site.met, List.map_cons, List.map_cons, List.map_cons]
    have hsteady : Site.Steady (redirectRef root base) (before ++ site :: rest) := hplaces ▸ steady
    have hnext := hsteady.remembers remembers
    have hrest : places = (before ++ [site]) ++ rest := by rw [hplaces, List.append_assoc]; rfl
    -- Once the reference of this site is passed, so are all that have been met.
    have hpasses : ∀ more, known ⊆ more → Passes root more base site.ref →
        ∀ other ∈ before ++ [site], Passes root more base other.ref := by
      intro more hsub hsite other hother
      rcases List.mem_append.1 hother with hother | hother
      · exact (passes other hother).mono hsub
      · obtain rfl := List.mem_singleton.1 hother
        exact hsite
    rcases hsteady.current remembers with hcurrent | ⟨hcurrent, hagain, earlier, hearlier, hsame⟩
    · rw [hcurrent]
      cases hmeaning : meaning root base site.ref with
      | error fault => exact .fault hmeaning _ _
      | ok meant =>
        by_cases hexternal : ∃ target, meant = .external target
        · obtain ⟨target, rfl⟩ := hexternal
          have hsub : known ⊆ target :: known := List.subset_cons_self _ _
          have hsite : Passes root (target :: known) base site.ref := by
            refine ⟨_, hmeaning, ?_⟩
            rintro other ⟨⟩
            exact List.mem_cons_self
          exact .lead hmeaning (ih hrest hnext (target :: known) (hpasses _ hsub hsite))
        · have hsite : Passes root known base site.ref :=
            ⟨meant, hmeaning, fun target htarget => absurd ⟨target, htarget⟩ hexternal⟩
          exact .pass hsite hsite (ih hrest hnext known (hpasses _ (List.Subset.refl _) hsite))
    · have hsite : Passes root known base site.ref := hsame ▸ passes earlier hearlier
      rw [hcurrent]
      exact .pass (hsite.redirectRef (keeps site (hplaces ▸ hagain))) hsite
        (ih hrest hnext known (hpasses _ (List.Subset.refl _) hsite))

theorem tasksFor_of_isFinite {v : Value} (finite : v.isFinite = true) :
    tasksFor root base v = (v.refsMet root base).map (Task.follow base) := by
  rw [tasksFor, Value.isEndless_of_isFinite finite]
  exact List.append_nil _

/-- The tasks for a part in which redirections come to rest at once come to the same as those for the
part without labels. -/
theorem alike_tasksFor {v : Value} {held : Nat → Entries} (finite : v.isFinite = true)
    (settles : v.Settles root base) (shares : v.Shares held) (known : List Target) :
    Alike root known (tasksFor root base v) (tasksFor root base v.unlabelled) := by
  have first : Site.Remembers (redirectRef root base) [] [] := by
    intro number ref hfound
    cases hfound
  have hfinite : v.unlabelled.isFinite = true := v.isFinite_unlabelled.trans finite
  rw [tasksFor_of_isFinite finite, tasksFor_of_isFinite hfinite,
    Value.refsMet_unlabelled root base finite, Value.refsMet,
    (Value.ends_of_isFinite finite).sitesMet_eq]
  have hplaces : v.sites = [] ++ v.sites := rfl
  exact alike_met (settles.steady shares) settles.again hplaces first known (by simp)

end Tasks

/-! ## Gatherings without labels -/

/-- A bundled schema without labels. -/
def Bundled.unlabelled (schema : Bundled) : Bundled :=
  { schema with source := schema.source.unlabelled }

theorem Value.difference_of_isFinite (v : Value) {w : Value} (finite : w.isFinite = true)
    (fault : DocumentFault) : v.difference w fault = .document fault := by
  rw [Value.difference, Value.entangled_of_isFinite v finite]
  rfl

namespace Gathering

/-- A gathering without labels. -/
def unlabelled (gathering : Gathering) : Gathering :=
  { gathering with schemas := gathering.schemas.map Bundled.unlabelled }

@[simp] theorem conflicts_unlabelled (gathering : Gathering) (name : Text) (source : Value) :
    gathering.unlabelled.conflicts name source.unlabelled = gathering.conflicts name source := by
  have hfind : gathering.unlabelled.find? name = (gathering.find? name).map Bundled.unlabelled := by
    rw [find?, unlabelled, List.find?_map]
    rfl
  rw [conflicts, conflicts, hfind]
  cases gathering.find? name with
  | none => rfl
  | some schema => exact congrArg (! ·) (Value.equals_unlabelled _ _)

/-- A target is put among schemas without labels as among those with labels. -/
theorem unlabelled_extend (gathering : Gathering) (target : Target) (source : Value) :
    (gathering.extend target source).unlabelled
      = gathering.unlabelled.extend target source.unlabelled := by
  have hput : ∀ (schema : Bundled) (schemas : List Bundled),
      (putSchema schema schemas).map Bundled.unlabelled
        = putSchema schema.unlabelled (schemas.map Bundled.unlabelled) := by
    intro schema schemas
    induction schemas with
    | nil => rfl
    | cons other rest ih =>
      have hname : (other.unlabelled.name == schema.unlabelled.name) = (other.name == schema.name) :=
        rfl
      rw [List.map_cons, putSchema, putSchema, hname]
      split
      · rfl
      · rw [List.map_cons, ih]
  exact congrArg (Gathering.mk _) (hput _ _)

/-- A part that does not contain itself differs from a schema of its name. -/
theorem conflict_of_isFinite (gathering : Gathering) (name : Text) {source : Value}
    (finite : source.isFinite = true) :
    gathering.conflict name source = .document (.conflicting name) := by
  unfold conflict
  split
  · exact Value.difference_of_isFinite _ finite _
  · rfl

/-- A target is taken in from a document without labels as from one with labels. -/
theorem takeIn_unlabelled (gathering : Gathering) (target : Target) (ref : Text)
    {document : Value} (finite : document.isFinite = true) :
    gathering.unlabelled.takeIn target ref document.unlabelled
      = (gathering.takeIn target ref document).map fun taken =>
          (taken.1.unlabelled, taken.2.unlabelled) := by
  rw [takeIn, takeIn, Value.resolveInside_unlabelled finite]
  cases hpart : Reference.resolveInside document target.pointer ref with
  | error fault => rfl
  | ok source =>
    have hfinite : source.isFinite = true :=
      Value.isFinite_part ((Value.resolveInside_eq_ok_iff _ _ _ _).1 hpart) finite
    have hfinite' : source.unlabelled.isFinite = true := source.isFinite_unlabelled.trans hfinite
    have hextend := gathering.unlabelled_extend target source
    simp only [Except.map, bind, Except.bind, conflicts_unlabelled, conflict_of_isFinite _ _ hfinite,
      conflict_of_isFinite _ _ hfinite']
    split
    · rfl
    · exact congrArg (fun next => Except.ok (source.unlabelled, next)) hextend.symm

end Gathering

/-! ## Installing without labels -/

namespace Value

/-- Neither the components of a document nor the schemas among them stand at another place too. -/
def TablesApart (document : Value) : Prop :=
  ∀ label components, document.under? componentsKey = some (mapping label components) →
    label = none ∧ ∀ label' schemas,
      Entries.get? schemasKey components = some (mapping label' schemas) → label' = none

/-- What stands under another key than that of a reference is redirected on its own. -/
theorem under?_redirectRefs (settled : Repeated) (redirect : Text → Text) {key : Text}
    (hkey : key ≠ Reference.refKey) (v : Value) :
    (redirectRefs settled redirect v).under? key
      = (v.under? key).map (redirectRefs settled redirect) := by
  cases v with
  | mapping label entries =>
    rw [redirectRefs, under?, under?, redirectEntries_eq_map, get?_redirected hkey]
  | _ => rfl

/-- Relocation repeats no tables. -/
theorem TablesApart.relocated {root base : Path} {document : Value} (h : document.TablesApart) :
    (document.relocated root base).TablesApart := by
  have hmapping : ∀ {settled redirect v label entries},
      redirectRefs settled redirect v = mapping label entries →
        ∃ before, v = mapping label before := by
    intro settled redirect v label entries hv
    cases v with
    | mapping own before =>
      rw [redirectRefs] at hv
      cases hv
      exact ⟨before, rfl⟩
    | _ => simp [redirectRefs] at hv
  intro label components hcomponents
  rw [Value.relocated, under?_redirectRefs _ _ (by decide)] at hcomponents
  obtain ⟨before, hbefore, heq⟩ := Option.map_eq_some_iff.1 hcomponents
  obtain ⟨inner, rfl⟩ := hmapping heq
  obtain ⟨hlabel, hschemas⟩ := h label inner hbefore
  refine ⟨hlabel, fun label' schemas hfound => ?_⟩
  have hunder : (mapping label components).under? schemasKey = some (mapping label' schemas) :=
    hfound
  rw [← heq, under?_redirectRefs _ _ (by decide)] at hunder
  obtain ⟨before', hbefore', heq'⟩ := Option.map_eq_some_iff.1 hunder
  obtain ⟨inner', rfl⟩ := hmapping heq'
  exact hschemas label' inner' hbefore'

end Value

/-- Labels are taken away in an entry that is put among others. -/
theorem unlabelledEntries_put (key : Scalar) (v : Value) (entries : Entries) :
    Value.unlabelledEntries (Entries.put key v entries)
      = Entries.put key v.unlabelled (Value.unlabelledEntries entries) := by
  induction entries with
  | nil => rfl
  | cons entry rest ih =>
    obtain ⟨own, w⟩ := entry
    rw [Entries.put, Value.unlabelledEntries, Entries.put]
    split
    · rfl
    · rw [Value.unlabelledEntries, ih]

/-- The tables of a document in which they are not repeated have no labels. -/
theorem Value.TablesApart.labels {label : Option Nat} {entries : Entries}
    (h : (Value.mapping label entries).TablesApart) {componentsLabel schemasLabel : Option Nat}
    {components schemas : Entries}
    (hcomponents : mappingPart componentsKey entries = .ok (componentsLabel, components))
    (hschemas : mappingPart schemasKey components = .ok (schemasLabel, schemas)) :
    componentsLabel = none ∧ schemasLabel = none := by
  rcases eq_or_get?_of_mappingPart hcomponents with ⟨rfl, rfl, -⟩ | hfound
  · cases hschemas
    exact ⟨rfl, rfl⟩
  · obtain ⟨hlabel, hinner⟩ := h componentsLabel components hfound
    refine ⟨hlabel, ?_⟩
    rcases eq_or_get?_of_mappingPart hschemas with ⟨hnone, -⟩ | hfound'
    · exact hnone
    · exact hinner schemasLabel schemas hfound'

section Installing

variable {root : Path}

/-- A schema that is added among schemas without labels. -/
theorem installSchema_unlabelled {schema : Bundled} (finite : schema.source.isFinite = true)
    (body : schema.unlabelled.body root = schema.body root) (schemas : Entries) :
    installSchema root (Value.unlabelledEntries schemas) schema.unlabelled
      = (installSchema root schemas schema).map Value.unlabelledEntries := by
  have hbody : (schema.body root).unlabelled = schema.body root :=
    Value.unlabelled_of_aliasFree (Value.aliasFree_unlabelled _)
  have hname : schema.unlabelled.name = schema.name := rfl
  rw [installSchema, installSchema, addSchema, addSchema, Value.get?_unlabelledEntries, body, hname]
  cases Entries.get? schema.name schemas with
  | none =>
    simp only [Option.map_none, Except.map, Value.unlabelledEntries_eq_map, List.map_append,
      List.map_cons, List.map_nil, hbody]
  | some own =>
    have hequals : own.unlabelled.equals schema.unlabelled.source = own.equals schema.source :=
      Value.equals_unlabelled own schema.source
    have hfinite : schema.unlabelled.source.isFinite = true :=
      schema.source.isFinite_unlabelled.trans finite
    simp only [Option.map_some, Value.unlabelled_same, hequals,
      Value.difference_of_isFinite _ finite, Value.difference_of_isFinite _ hfinite]
    split
    · rw [Except.map, unlabelledEntries_put, hbody]
    · split <;> rfl

/-- Schemas that are added among schemas without labels. -/
theorem installAll_unlabelled {bundled : List Bundled}
    (finite : ∀ schema ∈ bundled, schema.source.isFinite = true)
    (bodies : ∀ schema ∈ bundled, schema.unlabelled.body root = schema.body root)
    (schemas : Entries) :
    installAll root (Value.unlabelledEntries schemas) (bundled.map Bundled.unlabelled)
      = (installAll root schemas bundled).map Value.unlabelledEntries := by
  induction bundled generalizing schemas with
  | nil => rfl
  | cons schema rest ih =>
    obtain ⟨hfinite, hothers⟩ := List.forall_mem_cons.1 finite
    obtain ⟨hschema, hrest⟩ := List.forall_mem_cons.1 bodies
    rw [installAll, installAll, List.map_cons, List.foldlM_cons, List.foldlM_cons,
      installSchema_unlabelled hfinite hschema]
    cases installSchema root schemas schema with
    | error fault => rfl
    | ok next => exact ih hothers hrest next

/-- **Installing.**  Schemas are added to a document without labels as to one in which the tables of
schemas are not repeated. -/
theorem install_unlabelled {document : Value} {bundled : List Bundled}
    (apart : bundled ≠ [] → document.TablesApart)
    (finite : ∀ schema ∈ bundled, schema.source.isFinite = true)
    (bodies : ∀ schema ∈ bundled, schema.unlabelled.body root = schema.body root) :
    install root document.unlabelled (bundled.map Bundled.unlabelled)
      = (install root document bundled).map Value.unlabelled := by
  cases bundled with
  | nil => rfl
  | cons schema rest =>
    cases document with
    | mapping label entries =>
      have htables := apart (List.cons_ne_nil _ _)
      have hall := installAll_unlabelled finite bodies
      rw [List.map_cons] at hall
      simp only [Value.unlabelled, List.map_cons, install, changeSchemas, List.isEmpty_cons,
        Bool.false_eq_true, if_false, bind, Except.bind]
      rw [mappingPart_unlabelled]
      cases hcomponents : mappingPart componentsKey entries with
      | error fault => rfl
      | ok part =>
        obtain ⟨componentsLabel, components⟩ := part
        simp only [Except.map]
        rw [mappingPart_unlabelled]
        cases hschemas : mappingPart schemasKey components with
        | error fault => rfl
        | ok part =>
          obtain ⟨schemasLabel, schemas⟩ := part
          simp only [Except.map]
          rw [hall]
          obtain ⟨rfl, rfl⟩ := htables.labels hcomponents hschemas
          cases installAll root schemas (schema :: rest) with
          | error fault => rfl
          | ok schemas' =>
            simp only [Except.map, Value.putMapping, pure, Except.pure, Value.unlabelled,
              unlabelledEntries_put]
    | _ => rfl

end Installing

@[simp] theorem checkDocument_unlabelled (document : Value) :
    checkDocument document.unlabelled = (checkDocument document).map Value.unlabelled := by
  cases document with
  | mapping label entries =>
    have hkey : Entries.hasKey "openapi" (Value.unlabelledEntries entries)
        = Entries.hasKey "openapi" entries := by
      rw [Value.unlabelledEntries_eq_map, Entries.hasKey_map]
    rw [Value.unlabelled, checkDocument, checkDocument, hkey]
    split <;> rfl
  | _ => rfl

end SchemaCodecs
