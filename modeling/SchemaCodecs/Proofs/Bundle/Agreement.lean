/-
# What is gathered

A derivation takes in the target of every reference that is met, and keeps one schema for each name.
The targets of a name denote values that are the same, but the schema has the file of only one of
them.

* `Met` : the references met while bundling;
* `Gathers.mem_targets` : the target of every met reference is taken in;
* `Registered` : targets have schemas, and schemas different names;
* `Consistent` : what holds between the targets and the schemas.
-/
import SchemaCodecs.Proofs.Bundle.Search

namespace SchemaCodecs

/-! ## References that are met -/

/-- The references met while bundling a root document, with the files they stand in: those of the
root document, and those in the values that met references lead to. -/
inductive Met (tree : FileTree) (shelf : Shelf) (root : Path) (document : Value) :
    Path → Text → Prop where
  /-- A reference of the root document. -/
  | inDocument {ref : Text} (mem : ref ∈ document.refsMet root root) :
    Met tree shelf root document root ref
  /-- A reference in the value that the target of a met reference denotes. -/
  | inSource {base : Path} {ref inner : Text} {target : Target} {source : Value}
      (met : Met tree shelf root document base ref)
      (means : meaning root base ref = .ok (.external target))
      (denotes : sourceAt? tree shelf target = some source)
      (mem : inner ∈ source.refsMet root target.file) :
    Met tree shelf root document target.file inner

/-- At first the references of the root document are to be followed, which are met. -/
theorem met_of_start {tree : FileTree} {shelf : Shelf} {root base : Path} {document : Value}
    {ref : Text} (hmem : .follow base ref ∈ (Trail.start root document).tasks) :
    Met tree shelf root document base ref := by
  obtain ⟨rfl, href⟩ := follow_mem_tasksFor_iff.1 hmem
  exact .inDocument href

/-- If the references that are to be followed are met, they are after a target has been gone into. -/
theorem met_of_into {tree : FileTree} {shelf : Shelf} {root base : Path} {document : Value}
    {ref : Text} {rest : List Task} {target : Target} {source : Value}
    (met : ∀ base' ref', .follow base' ref' ∈ .follow base ref :: rest →
      Met tree shelf root document base' ref')
    (means : meaning root base ref = .ok (.external target))
    (denotes : sourceAt? tree shelf target = some source) {base' : Path} {ref' : Text}
    (hmem : .follow base' ref' ∈ tasksFor root target.file source ++ .close ref target.name :: rest) :
    Met tree shelf root document base' ref' := by
  rcases follow_mem_append_iff.1 hmem with ⟨rfl, hinner⟩ | hmem
  · exact .inSource (met base ref List.mem_cons_self) means denotes hinner
  · exact met base' ref' (List.mem_cons_of_mem _ hmem)

/-- The target of a reference, if it has one, is among the given ones. -/
def Covered (root : Path) (targets : List Target) (base : Path) (ref : Text) : Prop :=
  ∀ target, meaning root base ref = .ok (.external target) → target ∈ targets

section Coverage

variable {tree : FileTree} {shelf : Shelf} {root : Path} {gathering final : Gathering}
  {tasks : List Task}

/-- A derivation keeps the targets it begins with. -/
theorem Gathers.targets_subset (h : Gathers tree shelf root gathering tasks final) :
    gathering.targets ⊆ final.targets := by
  refine Gathers.preserves (P := fun later => gathering.targets ⊆ later.targets) h ?_
    (List.Subset.refl _)
  intro later target source _ _ _ kept
  exact List.Subset.trans kept (List.subset_cons_self target later.targets)

/-- A derivation carries out its tasks: it covers their references. -/
theorem Gathers.covered_of_task (h : Gathers tree shelf root gathering tasks final) {base : Path}
    {ref : Text} (hmem : Task.follow base ref ∈ tasks) :
    Covered root final.targets base ref := by
  induction h with
  | done _ => cases hmem
  | close _ _ _ ih =>
    rcases List.mem_cons.1 hmem with heq | hmem
    · cases heq
    · exact ih hmem
  | stay means inside _ ih =>
    rcases List.mem_cons.1 hmem with heq | hmem
    · obtain ⟨rfl, rfl⟩ := Task.follow.inj heq
      intro target htarget
      exact absurd (Except.ok.inj (means.symm.trans htarget)) (inside target)
    · exact ih hmem
  | known means mem next ih =>
    rcases List.mem_cons.1 hmem with heq | hmem
    · obtain ⟨rfl, rfl⟩ := Task.follow.inj heq
      intro target htarget
      cases means.symm.trans htarget
      exact next.targets_subset mem
    · exact ih hmem
  | new means _ _ _ next ih =>
    rcases List.mem_cons.1 hmem with heq | hmem
    · obtain ⟨rfl, rfl⟩ := Task.follow.inj heq
      intro target htarget
      cases means.symm.trans htarget
      exact next.targets_subset List.mem_cons_self
    · exact ih (follow_mem_append_iff.2 (Or.inr hmem))

/-- A derivation covers the references in the values of the targets that it takes in. -/
theorem Gathers.covered_of_source (h : Gathers tree shelf root gathering tasks final)
    {target : Target} (htarget : target ∈ final.targets) (hnew : target ∉ gathering.targets)
    {source : Value} (denotes : sourceAt? tree shelf target = some source) {inner : Text}
    (hinner : inner ∈ source.refsMet root target.file) :
    Covered root final.targets target.file inner := by
  induction h with
  | done _ => exact absurd htarget hnew
  | close _ _ _ ih => exact ih htarget hnew
  | stay _ _ _ ih => exact ih htarget hnew
  | known _ _ _ ih => exact ih htarget hnew
  | @new _ _ _ _ _ other _ _ _ otherDenotes _ next ih =>
    by_cases heq : target = other
    · subst heq
      cases denotes.symm.trans otherDenotes
      exact next.covered_of_task (follow_mem_append_iff.2 (Or.inl ⟨rfl, hinner⟩))
    · refine ih htarget ?_
      rw [Gathering.extend, List.mem_cons]
      rintro (h | h)
      · exact heq h
      · exact hnew h

/-- Gathering from a root document takes in the target of every reference that is met. -/
theorem Gathers.mem_targets {document : Value}
    (h : Gathers tree shelf root {} (tasksFor root root document) final) {base : Path}
    {ref : Text} (met : Met tree shelf root document base ref) {target : Target}
    (means : meaning root base ref = .ok (.external target)) : target ∈ final.targets := by
  induction met generalizing target with
  | inDocument mem => exact h.covered_of_task (follow_mem_tasksFor_iff.2 ⟨rfl, mem⟩) target means
  | inSource _ outerMeans denotes mem ih =>
    exact h.covered_of_source (ih outerMeans) List.not_mem_nil denotes mem target means

end Coverage

/-! ## Schemas by name -/

namespace Gathering

theorem mem_of_find? {gathering : Gathering} {name : Text} {schema : Bundled}
    (h : gathering.find? name = some schema) : schema ∈ gathering.schemas ∧ schema.name = name := by
  refine ⟨List.mem_of_find?_eq_some h, ?_⟩
  simpa using List.find?_some h

@[simp] theorem find?_putSchema_self (schema : Bundled) (schemas : List Bundled) :
    (putSchema schema schemas).find? (fun other => other.name == schema.name) = some schema := by
  induction schemas with
  | nil => simp [putSchema]
  | cons other rest ih =>
    rw [putSchema]
    split
    · simp
    · next hne => rw [List.find?_cons_of_neg (by simpa using hne), ih]

@[simp] theorem find?_extend_self (gathering : Gathering) (target : Target) (source : Value) :
    (gathering.extend target source).find? target.name = some ⟨target.name, target, source⟩ :=
  find?_putSchema_self ⟨target.name, target, source⟩ gathering.schemas

/-- Putting a schema leaves those of other names. -/
theorem find?_putSchema_of_ne {schema : Bundled} {name : Text} (hne : schema.name ≠ name)
    (schemas : List Bundled) :
    (putSchema schema schemas).find? (fun other => other.name == name)
      = schemas.find? fun other => other.name == name := by
  induction schemas with
  | nil => simp [putSchema, hne]
  | cons other rest ih =>
    rw [putSchema]
    split
    · next heq =>
      have hother : other.name ≠ name := by
        rw [beq_iff_eq.1 heq]
        exact hne
      rw [List.find?_cons_of_neg (by simpa using hne), List.find?_cons_of_neg (by simpa using hother)]
    · rw [List.find?_cons, List.find?_cons, ih]

/-- The names after a schema has been put: its name is added unless it is there. -/
theorem names_putSchema (schema : Bundled) (schemas : List Bundled) :
    (putSchema schema schemas).map (·.name)
      = if schema.name ∈ schemas.map (·.name) then schemas.map (·.name)
        else schemas.map (·.name) ++ [schema.name] := by
  induction schemas with
  | nil => simp [putSchema]
  | cons other rest ih =>
    rw [putSchema]
    split
    · next heq =>
      rw [beq_iff_eq] at heq
      simp [heq]
    · next hne =>
      have hne : ¬ schema.name = other.name := fun h => hne (beq_iff_eq.2 h.symm)
      rw [List.map_cons, ih, List.map_cons]
      by_cases hmem : schema.name ∈ rest.map (·.name)
      · rw [if_pos hmem, if_pos (List.mem_cons_of_mem _ hmem)]
      · rw [if_neg hmem, if_neg (by simpa [hne] using hmem), List.cons_append]

theorem nodup_names_putSchema {schema : Bundled} {schemas : List Bundled}
    (h : (schemas.map (·.name)).Nodup) : ((putSchema schema schemas).map (·.name)).Nodup := by
  rw [names_putSchema]
  split
  · exact h
  · next hmem => exact List.Nodup.append h (List.nodup_singleton _) (by simpa using hmem)

/-- A schema after one has been put is that one or an earlier one. -/
theorem mem_putSchema {schema other : Bundled} {schemas : List Bundled}
    (h : other ∈ putSchema schema schemas) : other = schema ∨ other ∈ schemas := by
  induction schemas with
  | nil => exact Or.inl (List.mem_singleton.1 h)
  | cons first rest ih =>
    rw [putSchema] at h
    split at h
    · rcases List.mem_cons.1 h with rfl | h
      · exact Or.inl rfl
      · exact Or.inr (List.mem_cons_of_mem _ h)
    · rcases List.mem_cons.1 h with rfl | h
      · exact Or.inr List.mem_cons_self
      · exact (ih h).imp_right (List.mem_cons_of_mem _)

/-- A part that does not conflict is the same as the one of its name. -/
theorem same_of_conflicts {gathering : Gathering} {name : Text} {source : Value}
    {schema : Bundled} (h : gathering.conflicts name source = false)
    (hschema : gathering.find? name = some schema) : schema.source.same source = true := by
  rw [conflicts, hschema, Bool.not_eq_false', Value.equals, Bool.and_eq_true] at h
  exact h.1

end Gathering

/-! ## Registration -/

/-- Each name has one schema, and so does the name of each target. -/
structure Registered (gathering : Gathering) : Prop where
  /-- No two schemas have the same name. -/
  names : (gathering.schemas.map (·.name)).Nodup
  /-- There is a schema of the name of each target. -/
  targets : ∀ target ∈ gathering.targets, target.name ∈ gathering.schemas.map (·.name)

/-- A new target is registered. -/
theorem Registered.extend {gathering : Gathering} (h : Registered gathering) (target : Target)
    (source : Value) : Registered (gathering.extend target source) where
  names := Gathering.nodup_names_putSchema h.names
  targets := by
    intro other hother
    show other.name ∈ (Gathering.putSchema ⟨target.name, target, source⟩ _).map (·.name)
    rw [Gathering.names_putSchema]
    rcases List.mem_cons.1 hother with rfl | hother
    · split
      · next hmem => exact hmem
      · exact List.mem_append_right _ List.mem_cons_self
    · have hmem := h.targets other hother
      split
      · exact hmem
      · exact List.mem_append_left _ hmem

/-- Gathering from a root document registers all targets. -/
theorem registered_of_gatherFrom {tree : FileTree} {shelf : Shelf} {root : Path} {document : Value}
    {gathering : Gathering} (h : (gatherFrom tree shelf root document).outcome = .ok gathering) :
    Registered gathering := by
  have first : Registered {} := ⟨List.nodup_nil, by simp⟩
  refine ((gatherFrom_outcome_eq_ok_iff gathering).1 h).preserves ?_ first
  exact fun _ target source _ _ _ registered => registered.extend target source

/-! ## Consistency -/

/-- Targets denote values without repetitions. -/
def DistinctSources (tree : FileTree) (shelf : Shelf) : Prop :=
  ∀ target source, sourceAt? tree shelf target = some source → source.Distinct

/-- What holds between the targets that are taken in and the schemas that they become. -/
structure Consistent (tree : FileTree) (shelf : Shelf) (gathering : Gathering) : Prop where
  /-- A schema stands at one of the targets of its name. -/
  schemas : ∀ schema ∈ gathering.schemas, schema.target ∈ gathering.targets ∧
    schema.target.name = schema.name ∧ sourceAt? tree shelf schema.target = some schema.source
  /-- A target denotes the same as the schema of its name. -/
  targets : ∀ target ∈ gathering.targets, ∃ source schema,
    sourceAt? tree shelf target = some source ∧ gathering.find? target.name = some schema ∧
      source.same schema.source = true
  /-- The file of a target has a plain path. -/
  plain : ∀ target ∈ gathering.targets, target.file.IsPlain

theorem consistent_empty (tree : FileTree) (shelf : Shelf) : Consistent tree shelf {} where
  schemas := by simp
  targets := by simp
  plain := by simp

/-- A new target that does not conflict keeps targets and schemas consistent. -/
theorem Consistent.extend {tree : FileTree} {shelf : Shelf} {gathering : Gathering}
    (h : Consistent tree shelf gathering) (distinct : DistinctSources tree shelf) {target : Target}
    {source : Value} (plain : target.file.IsPlain)
    (denotes : sourceAt? tree shelf target = some source)
    (agrees : gathering.conflicts target.name source = false) :
    Consistent tree shelf (gathering.extend target source) where
  schemas := by
    intro schema hschema
    rcases Gathering.mem_putSchema hschema with rfl | hschema
    · exact ⟨List.mem_cons_self, rfl, denotes⟩
    · obtain ⟨htarget, hname, hsource⟩ := h.schemas schema hschema
      exact ⟨List.mem_cons_of_mem _ htarget, hname, hsource⟩
  targets := by
    intro other hother
    rcases List.mem_cons.1 hother with rfl | hother
    · exact ⟨source, ⟨other.name, other, source⟩, denotes, gathering.find?_extend_self other source,
        Value.same_refl (distinct other source denotes)⟩
    · obtain ⟨otherSource, schema, otherDenotes, hfind, hsame⟩ := h.targets other hother
      by_cases hname : target.name = other.name
      · -- The new source takes the place of the schema, which is the same as both.
        refine ⟨otherSource, ⟨target.name, target, source⟩, otherDenotes, ?_, ?_⟩
        · rw [← hname]
          exact gathering.find?_extend_self target source
        · rw [← hname] at hfind
          exact Value.same_trans hsame (Gathering.same_of_conflicts agrees hfind)
      · refine ⟨otherSource, schema, otherDenotes, ?_, hsame⟩
        exact (Gathering.find?_putSchema_of_ne hname _).trans hfind
  plain := List.forall_mem_cons.2 ⟨plain, h.plain⟩

/-- A derivation keeps targets and schemas consistent. -/
theorem Gathers.consistent {tree : FileTree} {shelf : Shelf} {root : Path}
    {gathering final : Gathering} {tasks : List Task} (distinct : DistinctSources tree shelf)
    (h : Gathers tree shelf root gathering tasks final) (first : Consistent tree shelf gathering) :
    Consistent tree shelf final :=
  h.preserves (fun _ _ _ plain denotes agrees consistent =>
    consistent.extend distinct plain denotes agrees) first

end SchemaCodecs
