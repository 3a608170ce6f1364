/-
# Bundling without siblings

Two trees of files, where the documents of one have lost siblings of references, are bundled in
step: the same references are met, the same targets are taken in, and the bundled documents have the
same component schemas but for such siblings.  That takes for granted that both runs decide alike
wherever whole values are compared, which is where siblings count: for targets of the same name, and
for a component schema with the name of a target.

* `DeletesSiblings` : what has been lost;
* `ComparesAlike` : the decisions on whole values;
* `bundle_inStep` : bundling in step.
-/
import SchemaCodecs.Proofs.Bundle.Pruning
import SchemaCodecs.Proofs.Bundle.Search
import SchemaCodecs.Proofs.Bundle.Unlabelled

namespace SchemaCodecs

open Schema

/-! ## What has been lost -/

/-- The second value is the first one without some siblings of references. -/
def LosesSiblings (role : Role) (v w : Value) : Prop :=
  ∃ rename, Function.Injective rename ∧ Pruned rename role v w

section Deleting

variable (tree other : FileTree) (shelf shelf' : Shelf) (root : Path) (document document' : Value)

/-- A target that is reached denotes a part in both trees. -/
structure Denotes (target : Target) (source source' : Value) : Prop where
  /-- A reference to the target is met. -/
  reached : ∃ base ref, Met tree shelf root document base ref ∧
    meaning root base ref = .ok (.external target)
  /-- What it denotes in one tree. -/
  before : sourceAt? tree shelf target = some source
  /-- What it denotes in the other one. -/
  after : sourceAt? other shelf' target = some source'

/-- The documents of the other tree have lost siblings of references: the root document and the parts
that are reached at schemas only, any document at places where it is not read as one. -/
structure DeletesSiblings : Prop where
  /-- In the documents of the files. -/
  inFiles : ∀ file, file.IsPlain →
    InStep (LosesSiblings .ignored) (documentAt tree shelf file) (documentAt other shelf' file)
  /-- In the root document. -/
  inDocument : LosesSiblings .document document document'
  /-- In the parts that are reached. -/
  inSources : ∀ target source source',
    Denotes tree other shelf shelf' root document target source source' →
      LosesSiblings .schema source source'

/-- The first two values are equal if and only if the last two are, and telling so has no end for both
or for neither. -/
structure Value.CompareAlike (v w v' w' : Value) : Prop where
  /-- Both are equal or none is. -/
  equals_eq : v'.equals w' = v.equals w
  /-- Both comparisons have an end or none has. -/
  entangled_eq : v'.entangled w' = v.entangled w

theorem Value.CompareAlike.difference_eq {v w v' w' : Value} (h : CompareAlike v w v' w')
    (fault : DocumentFault) : v'.difference w' fault = v.difference w fault := by
  rw [difference, difference, h.entangled_eq]

/-- Both runs decide alike where whole values count. -/
structure ComparesAlike : Prop where
  /-- A pointer of a reference does not lead into a lost sibling. -/
  finds : ∀ base ref target source, Met tree shelf root document base ref →
    meaning root base ref = .ok (.external target) → sourceAt? tree shelf target = some source →
      ∃ source', sourceAt? other shelf' target = some source'
  /-- Different targets of the same name denote parts that compare alike in both trees. -/
  gathered : ∀ first second v v' w w',
    Denotes tree other shelf shelf' root document first v v' →
      Denotes tree other shelf shelf' root document second w w' → first ≠ second →
        first.name = second.name → Value.CompareAlike v w v' w'
  /-- A component schema with the name of a part refers only to itself in both documents or in none,
  and compares alike with the part in both. -/
  installed : ∀ target source source' own own',
    Denotes tree other shelf shelf' root document target source source' →
      componentSchema? (document.relocated root root) target.name = some own →
        componentSchema? (document'.relocated root root) target.name = some own' →
          own'.same (selfReference target.name) = own.same (selfReference target.name) ∧
            Value.CompareAlike own source own' source'

variable {tree other shelf shelf' root document document'}

/-- Both runs decide alike if there is nothing to decide: no two targets that are reached have the same
name, and none has the name of a component schema. -/
theorem comparesAlike_of_apart
    (finds : ∀ base ref target source, Met tree shelf root document base ref →
      meaning root base ref = .ok (.external target) → sourceAt? tree shelf target = some source →
        ∃ source', sourceAt? other shelf' target = some source')
    (apart : ∀ first second v v' w w',
      Denotes tree other shelf shelf' root document first v v' →
        Denotes tree other shelf shelf' root document second w w' → first.name = second.name →
          first = second)
    (absent : ∀ target source source',
      Denotes tree other shelf shelf' root document target source source' →
        componentSchema? (document.relocated root root) target.name = none) :
    ComparesAlike tree other shelf shelf' root document document' where
  finds := finds
  gathered := fun first second v v' w w' hfirst hsecond hne hname =>
    absurd (apart first second v v' w w' hfirst hsecond hname) hne
  installed := by
    intro target source source' own own' hdenotes hown
    rw [absent target source source' hdenotes] at hown
    cases hown

end Deleting

/-! ## Walks in step -/

section Walks

variable (tree other : FileTree) (shelf shelf' : Shelf) (root : Path) (document document' : Value)

/-- Two gathered schemas of the same target. -/
structure Counterparts (schema schema' : Bundled) : Prop where
  /-- The schema has the name of its target. -/
  own_name : schema.name = schema.target.name
  /-- Both have the same name. -/
  name_eq : schema'.name = schema.name
  /-- Both have the same target. -/
  target_eq : schema'.target = schema.target
  /-- They are what the target denotes in each tree. -/
  denotes : Denotes tree other shelf shelf' root document schema.target schema.source schema'.source

/-- A trail, and the one in the other tree at the same point. -/
structure Paired (trail trail' : Trail) : Prop where
  /-- The same targets were taken in. -/
  targets : trail'.gathering.targets = trail.gathering.targets
  /-- They have become schemas of the same targets. -/
  schemas : List.Forall₂ (Counterparts tree other shelf shelf' root document)
    trail.gathering.schemas trail'.gathering.schemas
  /-- No other targets have. -/
  entered : ∀ schema ∈ trail.gathering.schemas, schema.target ∈ trail.gathering.targets
  /-- The same remains to be done. -/
  tasks : trail'.tasks = trail.tasks
  /-- The tasks are for references that are met. -/
  met : ∀ base ref, .follow base ref ∈ trail.tasks → Met tree shelf root document base ref

variable {tree other shelf shelf' root document document'}

/-- Counterparts are put among counterparts. -/
theorem putSchema_counterparts {schemas schemas' : List Bundled} {schema schema' : Bundled}
    (h : List.Forall₂ (Counterparts tree other shelf shelf' root document) schemas schemas')
    (hschema : Counterparts tree other shelf shelf' root document schema schema') :
    List.Forall₂ (Counterparts tree other shelf shelf' root document)
      (Gathering.putSchema schema schemas) (Gathering.putSchema schema' schemas') := by
  induction h with
  | nil => exact .cons hschema .nil
  | cons hfirst hrest ih =>
    rw [Gathering.putSchema, Gathering.putSchema, hfirst.name_eq, hschema.name_eq]
    split
    · exact .cons hschema hrest
    · exact .cons hfirst ih

/-- Among counterparts a schema of a name has its counterpart, if there is one. -/
theorem find?_counterparts {schemas schemas' : List Bundled}
    (h : List.Forall₂ (Counterparts tree other shelf shelf' root document) schemas schemas')
    (name : Text) :
    ((schemas.find? fun schema => schema.name == name) = none ∧
        (schemas'.find? fun schema => schema.name == name) = none) ∨
      ∃ schema schema', (schemas.find? fun schema => schema.name == name) = some schema ∧
        (schemas'.find? fun schema => schema.name == name) = some schema' ∧
          Counterparts tree other shelf shelf' root document schema schema' := by
  induction h with
  | nil => exact Or.inl ⟨rfl, rfl⟩
  | @cons schema schema' _ _ hfirst _ ih =>
    rw [List.find?_cons, List.find?_cons, hfirst.name_eq]
    cases schema.name == name with
    | true => exact Or.inr ⟨schema, schema', rfl, rfl, hfirst⟩
    | false => exact ih

/-- A part conflicts with the schema of its name in both trees or in none, and with the same fault. -/
theorem conflicts_eq (alike : ComparesAlike tree other shelf shelf' root document document')
    {gathering gathering' : Gathering}
    (h : List.Forall₂ (Counterparts tree other shelf shelf' root document)
      gathering.schemas gathering'.schemas) {target : Target} {source source' : Value}
    (fresh : ∀ schema ∈ gathering.schemas, schema.target ≠ target)
    (denotes : Denotes tree other shelf shelf' root document target source source') :
    gathering'.conflicts target.name source' = gathering.conflicts target.name source ∧
      gathering'.conflict target.name source' = gathering.conflict target.name source := by
  rw [Gathering.conflicts, Gathering.conflicts, Gathering.conflict, Gathering.conflict,
    Gathering.find?, Gathering.find?]
  rcases find?_counterparts h target.name with ⟨hv, hw⟩ | ⟨schema, schema', hv, hw, hpair⟩
  · rw [hv, hw]
    exact ⟨rfl, rfl⟩
  · have hnames : schema.target.name = target.name := by
      rw [← hpair.own_name]
      simpa using List.find?_some hv
    have halike := alike.gathered _ _ _ _ _ _ hpair.denotes denotes
      (fresh schema (List.mem_of_find?_eq_some hv)) hnames
    rw [hv, hw]
    exact ⟨congrArg (! ·) halike.equals_eq, halike.difference_eq _⟩

theorem resolveInside_eq_of_none {found found' : Value} {pointer : Text}
    (h : found.partAt? pointer = none) (h' : found'.partAt? pointer = none) (ref : Text) :
    Reference.resolveInside found' pointer ref = Reference.resolveInside found pointer ref := by
  unfold Value.partAt? at h h'
  unfold Reference.resolveInside Reference.alongPointer
  split at h <;> simp_all

/-- A new target is taken in by both runs, or refused in the same way. -/
theorem takeIn_inStep (deletes : DeletesSiblings tree other shelf shelf' root document document')
    (alike : ComparesAlike tree other shelf shelf' root document document')
    {gathering gathering' : Gathering}
    (h : List.Forall₂ (Counterparts tree other shelf shelf' root document)
      gathering.schemas gathering'.schemas) {base : Path} {ref : Text} {target : Target}
    (fresh : ∀ schema ∈ gathering.schemas, schema.target ≠ target)
    (met : Met tree shelf root document base ref)
    (means : meaning root base ref = .ok (.external target)) :
    InStep (fun taken taken' => ∃ source source',
        taken = (source, gathering.extend target source) ∧
          taken' = (source', gathering'.extend target source') ∧
            Denotes tree other shelf shelf' root document target source source')
      (documentAt tree shelf target.file >>= gathering.takeIn target ref)
      (documentAt other shelf' target.file >>= gathering'.takeIn target ref) := by
  refine (deletes.inFiles target.file (isPlain_of_meaning means)).bind ?_
  rintro found found' hdocument hother ⟨rename, -, hpruned⟩
  rw [Gathering.takeIn, Gathering.takeIn]
  cases hpart : found.partAt? target.pointer with
  | none =>
    have hpart' : found'.partAt? target.pointer = none := by
      rw [Option.eq_none_iff_forall_ne_some]
      intro selected hselected
      obtain ⟨before, hbefore, -⟩ := hpruned.part hselected
      rw [hpart] at hbefore
      cases hbefore
    rw [resolveInside_eq_of_none hpart hpart' ref]
    cases hresolve : Reference.resolveInside found target.pointer ref with
    | error fault => exact .error fault
    | ok source =>
      rw [(Value.resolveInside_eq_ok_iff _ _ _ _).1 hresolve] at hpart
      cases hpart
  | some source =>
    have hsource : sourceAt? tree shelf target = some source :=
      (sourceAt?_eq_some_iff _ _ _ _).2 ⟨found, hdocument, hpart⟩
    obtain ⟨source', hsource'⟩ := alike.finds base ref target source met means hsource
    have denotes : Denotes tree other shelf shelf' root document target source source' :=
      ⟨⟨base, ref, met, means⟩, hsource, hsource'⟩
    obtain ⟨again, hagain, hpart'⟩ := (sourceAt?_eq_some_iff _ _ _ _).1 hsource'
    obtain rfl := Except.ok.inj (hagain.symm.trans hother)
    rw [(Value.resolveInside_eq_ok_iff _ _ ref _).2 hpart,
      (Value.resolveInside_eq_ok_iff _ _ ref _).2 hpart']
    obtain ⟨hconflicts, hconflict⟩ := conflicts_eq alike h fresh denotes
    simp only [bind, Except.bind, hconflicts, hconflict]
    split
    · exact .error _
    · exact .ok ⟨source, source', rfl, rfl, denotes⟩

/-- Taking in the same target keeps trails paired. -/
theorem Paired.into (deletes : DeletesSiblings tree other shelf shelf' root document document')
    {gathering gathering' : Gathering} {rest : List Task} {base : Path} {ref : Text}
    {target : Target} {source source' : Value}
    (h : Paired tree other shelf shelf' root document ⟨gathering, .follow base ref :: rest⟩
      ⟨gathering', .follow base ref :: rest⟩)
    (denotes : Denotes tree other shelf shelf' root document target source source')
    (means : meaning root base ref = .ok (.external target)) :
    Paired tree other shelf shelf' root document
      ⟨gathering.extend target source,
        tasksFor root target.file source ++ .close ref target.name :: rest⟩
      ⟨gathering'.extend target source',
        tasksFor root target.file source' ++ .close ref target.name :: rest⟩ where
  targets := congrArg (target :: ·) h.targets
  schemas := putSchema_counterparts h.schemas ⟨rfl, rfl, rfl, denotes⟩
  entered := by
    intro schema hschema
    rcases Gathering.mem_putSchema hschema with rfl | hschema
    · exact List.mem_cons_self
    · exact List.mem_cons_of_mem _ (h.entered schema hschema)
  tasks := by
    obtain ⟨rename, injective, hpruned⟩ := deletes.inSources target source source' denotes
    rw [hpruned.tasksFor_eq injective]
  met := fun base' ref' hmem => met_of_into h.met means denotes.before hmem

/-- Passing a task keeps trails paired. -/
theorem Paired.past {gathering gathering' : Gathering} {task : Task} {rest : List Task}
    (h : Paired tree other shelf shelf' root document ⟨gathering, task :: rest⟩
      ⟨gathering', task :: rest⟩) :
    Paired tree other shelf shelf' root document ⟨gathering, rest⟩ ⟨gathering', rest⟩ :=
  { h with
    tasks := rfl
    met := fun base ref hmem => h.met base ref (List.mem_cons_of_mem _ hmem) }

/-- **One turn.**  Paired trails take turns of the same kind to paired trails. -/
theorem Paired.turn (deletes : DeletesSiblings tree other shelf shelf' root document document')
    (alike : ComparesAlike tree other shelf shelf' root document document') {trail trail' : Trail}
    (h : Paired tree other shelf shelf' root document trail trail') :
    (trail.turn tree shelf root).Matches (Paired tree other shelf shelf' root document) Eq
      (trail'.turn other shelf' root) := by
  obtain ⟨gathering, tasks⟩ := trail
  obtain ⟨gathering', tasks'⟩ := trail'
  obtain rfl : tasks' = tasks := h.tasks
  match tasks' with
  | [] => exact trivial
  | .close ref name :: rest => exact h.past
  | .goRound :: rest => exact rfl
  | .follow base ref :: rest =>
    refine Turn.matches_follow h.targets (fun _ => h.past) fun target means notMem => ?_
    have fresh : ∀ schema ∈ gathering.schemas, schema.target ≠ target :=
      fun schema hschema heq => notMem (heq ▸ h.entered schema hschema)
    refine (takeIn_inStep deletes alike h.schemas fresh (h.met base ref List.mem_cons_self)
      means).imp ?_
    rintro _ _ ⟨source, source', rfl, rfl, denotes⟩
    exact h.into deletes denotes means

end Walks

/-! ## Installing in step -/

section Installing

variable {rename : Nat → Nat} {root : Path} {schema schema' : Bundled}

/-- Two tables of schemas, one of which has lost siblings of references. -/
abbrev TablesMatch (rename : Nat → Nat) (schemas schemas' : Entries) : Prop :=
  EntriesMatch (fun _ => Pruned rename .schema) schemas schemas'

/-- A schema that is put into both tables keeps them alike. -/
theorem TablesMatch.put {schemas schemas' : Entries} (h : TablesMatch rename schemas schemas')
    (key : Scalar) {v w : Value} (hpruned : Pruned rename .schema v w) :
    TablesMatch rename (Entries.put key v schemas) (Entries.put key w schemas') := by
  induction h with
  | nil => exact .cons ⟨rfl, hpruned⟩ .nil
  | cons hfirst hrest ih =>
    rw [Entries.put, Entries.put, hfirst.1]
    split
    · exact .cons ⟨rfl, hpruned⟩ hrest
    · exact .cons hfirst ih

/-- The component schemas with the name of a gathered one are treated alike. -/
def TreatsAlike (schemas schemas' : Entries) (schema schema' : Bundled) : Prop :=
  ∀ own own', Entries.get? schema.name schemas = some own →
    Entries.get? schema.name schemas' = some own' →
      own'.same (selfReference schema.name) = own.same (selfReference schema.name) ∧
        Value.CompareAlike own schema.source own' schema'.source

/-- A gathered schema is added to both tables, or refused in the same way. -/
theorem installSchema_inStep {schemas schemas' : Entries} (h : TablesMatch rename schemas schemas')
    (name_eq : schema'.name = schema.name)
    (body : Pruned rename .schema (schema.body root) (schema'.body root))
    (treats : TreatsAlike schemas schemas' schema schema') :
    InStep (TablesMatch rename) (installSchema root schemas schema)
      (installSchema root schemas' schema') := by
  rw [installSchema, installSchema, addSchema, addSchema, name_eq]
  rcases h.get? schema.name with ⟨hv, hw⟩ | ⟨own, own', hv, hw, -⟩
  · rw [hv, hw]
    exact .ok (List.rel_append h (.cons ⟨rfl, body⟩ .nil))
  · obtain ⟨hself, hequals⟩ := treats own own' hv hw
    rw [hv, hw]
    simp only [hself, hequals.equals_eq, hequals.difference_eq]
    split
    · exact .ok (h.put _ body)
    · split
      · exact .ok h
      · exact .error _

/-- All gathered schemas are added to both tables, or one is refused in the same way. -/
theorem installAll_inStep {bundled bundled' : List Bundled}
    (hbundled : List.Forall₂ (fun schema schema' => schema'.name = schema.name ∧
      Pruned rename .schema (schema.body root) (schema'.body root)) bundled bundled')
    (names : (bundled.map (·.name)).Nodup) {schemas schemas' : Entries}
    (h : TablesMatch rename schemas schemas')
    (treats : List.Forall₂ (TreatsAlike schemas schemas') bundled bundled') :
    InStep (TablesMatch rename) (installAll root schemas bundled)
      (installAll root schemas' bundled') := by
  induction hbundled generalizing schemas schemas' with
  | nil => exact .ok h
  | @cons schema schema' rest rest' hschema _ ih =>
    obtain ⟨name_eq, body⟩ := hschema
    rw [List.map_cons, List.nodup_cons] at names
    obtain ⟨hfirst, hrest⟩ := List.forall₂_cons.1 treats
    rw [installAll, installAll, List.foldlM_cons, List.foldlM_cons]
    refine (installSchema_inStep h name_eq body hfirst).bind fun next next' hnext hnext' hmatch => ?_
    refine ih names.2 hmatch (List.forall₂_iff_zip.2 ⟨hrest.length_eq, ?_⟩)
    -- Adding the first schema does not touch the component schemas of other names.
    intro other other' hmem own own' hown hown'
    have hne : schema.name ≠ other.name := fun heq =>
      names.1 (heq ▸ List.mem_map_of_mem (List.of_mem_zip hmem).1)
    rw [get?_of_installSchema_of_ne hnext hne] at hown
    rw [get?_of_installSchema_of_ne hnext' (name_eq ▸ hne)] at hown'
    exact List.forall₂_zip hrest hmem own own' hown hown'

/-! ## Documents in step -/

/-- A part of a document that has to be a mapping has lost siblings only inside. -/
theorem mappingPart_inStep {role inner : Role} {key : Text} {entries others : Entries}
    (h : EntriesMatch (fun key => Pruned rename (role.entry key)) entries others)
    (hinner : role.entry (.text key) = inner) (hschema : inner ≠ .schema)
    (hignored : inner ≠ .ignored) :
    InStep (fun part part' => EntriesMatch (fun key => Pruned rename (inner.entry key)) part.2 part'.2)
      (mappingPart key entries) (mappingPart key others) := by
  have hempty : EntriesMatch (fun key => Pruned rename (inner.entry key)) [] [] := List.Forall₂.nil
  rw [mappingPart, mappingPart]
  rcases h.get? key with ⟨hv, hw⟩ | ⟨v, w, hv, hw, hpruned⟩
  · rw [hv, hw]
    exact .ok hempty
  · rw [hinner] at hpruned
    rw [hv, hw, Option.bind_some, Option.bind_some, Value.truthy?, Value.truthy?,
      hpruned.isTruthy_eq]
    by_cases htruthy : v.isTruthy = true
    · rw [if_pos htruthy, if_pos htruthy]
      cases hpruned with
      | scalar | again | set | sequence | pair => exact .error _
      | @mapping _ _ _ entries others own keys_eq parts =>
        have hmatch : EntriesMatch (fun key => Pruned rename (inner.entry key)) entries others :=
          entriesMatch_iff_zip.2 ⟨keys_eq, parts⟩
        exact .ok hmatch
      | reference loses _ _ => exact absurd loses (by simp [hschema, hignored])
    · rw [if_neg htruthy, if_neg htruthy]
      exact .ok hempty

/-- The component schemas of a document have lost siblings only inside. -/
theorem componentSchemas_inStep {v w : Value} (h : Pruned rename .document v w) :
    InStep (TablesMatch rename) (componentSchemas v) (componentSchemas w) := by
  cases h with
  | scalar | again | set | sequence | pair => exact .error _
  | @mapping _ _ _ entries others own keys_eq parts =>
    have hmatch : EntriesMatch (fun key => Pruned rename (Role.document.entry key)) entries others :=
      entriesMatch_iff_zip.2 ⟨keys_eq, parts⟩
    have hcomponents : InStep (EntriesMatch fun key => Pruned rename (Role.components.entry key))
        (tableAt componentsKey entries) (tableAt componentsKey others) := by
      rw [tableAt_eq_map, tableAt_eq_map]
      exact (mappingPart_inStep hmatch rfl (by decide) (by decide)).map fun _ _ hpart => hpart
    refine hcomponents.bind fun components components' _ _ hinner => ?_
    show InStep _ (tableAt schemasKey components) (tableAt schemasKey components')
    rw [tableAt_eq_map, tableAt_eq_map]
    exact (mappingPart_inStep hinner rfl (by decide) (by decide)).map fun _ _ hpart => hpart
  | reference loses _ _ => exact absurd loses (by simp)

/-! ## The marker of a document -/

/-- A document that is accepted: a mapping with the marker. -/
theorem checkDocument_eq_ok_iff (v : Value) :
    checkDocument v = .ok v ↔ ∃ label entries, v = .mapping label entries ∧
      Entries.hasKey "openapi" entries = true := by
  cases v with
  | mapping label entries =>
    rw [checkDocument]
    split
    · next hkey => exact ⟨fun _ => ⟨label, entries, rfl, hkey⟩, fun _ => rfl⟩
    · next hkey =>
      constructor
      · rintro ⟨⟩
      · rintro ⟨_, _, heq, hmarker⟩
        cases heq
        exact absurd hmarker hkey
  | _ => simp [checkDocument]

/-- A document is accepted if the one that has lost siblings is. -/
theorem checkDocument_inStep {v w : Value} (h : Pruned rename .document v w) :
    InStep (fun accepted accepted' => accepted = v ∧ accepted' = w) (checkDocument v)
      (checkDocument w) := by
  cases h with
  | scalar | again | set | sequence | pair => exact .error _
  | @mapping _ _ _ entries others own keys_eq parts =>
    have hmatch : EntriesMatch (fun key => Pruned rename (Role.document.entry key)) entries others :=
      entriesMatch_iff_zip.2 ⟨keys_eq, parts⟩
    rw [checkDocument, checkDocument, hmatch.hasKey_eq]
    split
    · exact .ok ⟨rfl, rfl⟩
    · exact .error _
  | reference loses _ _ => exact absurd loses (by simp)

/-- An accepted document is accepted after relocation. -/
theorem checkDocument_relocated {v : Value} (h : checkDocument v = .ok v) (root base : Path) :
    checkDocument (v.relocated root base) = .ok (v.relocated root base) := by
  obtain ⟨label, entries, rfl, hkey⟩ := (checkDocument_eq_ok_iff v).1 h
  refine (checkDocument_eq_ok_iff _).2 ⟨label, _, rfl, ?_⟩
  rw [Value.redirectEntries_eq_map, Entries.hasKey_map, hkey]

/-- Replacing the entries of a mapping, if it is repeated, adds or removes no key. -/
theorem hasKey_replaced (label : Option Nat) (inner entries : Entries) (key : Text) :
    Entries.hasKey key (match label with
      | some number => Value.replaceLabelledEntries number inner entries
      | none => entries) = Entries.hasKey key entries := by
  cases label with
  | none => rfl
  | some number =>
    simp only
    rw [Value.replaceLabelledEntries_eq_map, Entries.hasKey_map]

/-- An accepted document is accepted after mappings have been put under its components. -/
theorem checkDocument_put (label : Option Nat) {entries : Entries}
    (hkey : Entries.hasKey "openapi" entries = true) (componentsLabel schemasLabel : Option Nat)
    (schemas components : Entries) :
    let final := Value.mapping label (Value.putMapping componentsKey componentsLabel components
      (match schemasLabel with
        | some number => Value.replaceLabelledEntries number schemas entries
        | none => entries))
    checkDocument final = .ok final := by
  refine (checkDocument_eq_ok_iff _).2 ⟨label, _, rfl, ?_⟩
  simp only [Value.putMapping]
  rw [Entries.hasKey, Entries.get?_put_of_ne (by decide)]
  exact (hasKey_replaced _ _ _ _).trans ((hasKey_replaced _ _ _ _).trans hkey)

/-- Two documents that are accepted, with the same component schemas but for siblings of
references. -/
structure ReadsAlike (rename : Nat → Nat) (v w : Value) : Prop where
  /-- One is accepted. -/
  accepted : checkDocument v = .ok v
  /-- The other one is accepted. -/
  accepted' : checkDocument w = .ok w
  /-- The component schemas. -/
  schemas : InStep (TablesMatch rename) (componentSchemas v) (componentSchemas w)

/-- **Installing.**  The gathered schemas are added to both documents, or one is refused in the same
way. -/
theorem install_inStep {v w : Value} (h : Pruned rename .document v w)
    (accepted : checkDocument v = .ok v) (accepted' : checkDocument w = .ok w)
    {bundled bundled' : List Bundled}
    (hbundled : List.Forall₂ (fun schema schema' => schema'.name = schema.name ∧
      Pruned rename .schema (schema.body root) (schema'.body root)) bundled bundled')
    (names : (bundled.map (·.name)).Nodup)
    (treats : List.Forall₂ (fun schema schema' => ∀ own own',
      componentSchema? v schema.name = some own → componentSchema? w schema.name = some own' →
        own'.same (selfReference schema.name) = own.same (selfReference schema.name) ∧
          Value.CompareAlike own schema.source own' schema'.source) bundled bundled') :
    InStep (ReadsAlike rename) (install root v bundled) (install root w bundled') := by
  obtain ⟨label, entries, rfl, hkey⟩ := (checkDocument_eq_ok_iff v).1 accepted
  obtain ⟨label', others, rfl, hkey'⟩ := (checkDocument_eq_ok_iff w).1 accepted'
  have hschemas := componentSchemas_inStep h
  cases hbundled with
  | nil => exact .ok ⟨accepted, accepted', hschemas⟩
  | @cons first first' rest rest' hfirst hrest =>
    have hmatch : EntriesMatch (fun key => Pruned rename (Role.document.entry key)) entries others := by
      cases h with
      | mapping own keys_eq parts => exact entriesMatch_iff_zip.2 ⟨keys_eq, parts⟩
      | reference loses _ _ => exact absurd loses (by simp)
    simp only [install, changeSchemas, List.isEmpty_cons, Bool.false_eq_true, if_false]
    refine (mappingPart_inStep hmatch rfl (by decide) (by decide)).bind ?_
    rintro ⟨componentsLabel, components⟩ ⟨componentsLabel', components'⟩ hpart hpart' hinner
    refine (mappingPart_inStep hinner rfl (by decide) (by decide)).bind ?_
    rintro ⟨schemasLabel, schemas⟩ ⟨schemasLabel', schemas'⟩ htable htable' htables
    have htreats : List.Forall₂ (TreatsAlike schemas schemas') (first :: rest) (first' :: rest') := by
      refine treats.imp fun schema schema' hschema own own' hown hown' => hschema own own' ?_ ?_
      · rw [← get?_of_mappingParts label hpart htable, hown]
      · rw [← get?_of_mappingParts label' hpart' htable', hown']
    refine (installAll_inStep (.cons hfirst hrest) names htables htreats).bind ?_
    intro final final' _ _ hfinal
    refine .ok ⟨checkDocument_put label hkey _ _ _ _, checkDocument_put label' hkey' _ _ _ _, ?_⟩
    rw [componentSchemas_put, componentSchemas_put]
    exact .ok hfinal

end Installing

/-! ## Bundling in step -/

section Bundling

variable {tree other : FileTree} {shelf shelf' : Shelf} {root : Path} {document document' : Value}

/-- **Gathering in step.**  From a document and from one that has lost siblings of references the same
targets are gathered, or both walks end in the same fault. -/
theorem gatherFrom_inStep (deletes : DeletesSiblings tree other shelf shelf' root document document')
    (alike : ComparesAlike tree other shelf shelf' root document document') :
    InStep (fun gathering gathering' =>
        List.Forall₂ (Counterparts tree other shelf shelf' root document) gathering.schemas
          gathering'.schemas)
      (gatherFrom tree shelf root document).outcome
      (gatherFrom other shelf' root document').outcome := by
  obtain ⟨rename, injective, hpruned⟩ := deletes.inDocument
  have first : Paired tree other shelf shelf' root document (.start root document)
      (.start root document') := {
    targets := rfl
    schemas := .nil
    entered := fun schema hschema => nomatch hschema
    tasks := hpruned.tasksFor_eq injective root root
    met := fun base ref hmem => met_of_start hmem }
  exact (gatherFrom_lockstep (fun trail trail' h => h.turn deletes alike) first).imp
    fun gathering gathering' hpaired => hpaired.schemas

/-- What is installed for counterparts differs in siblings of references only. -/
theorem Counterparts.body
    (deletes : DeletesSiblings tree other shelf shelf' root document document') (rename : Nat → Nat)
    {schema schema' : Bundled}
    (h : Counterparts tree other shelf shelf' root document schema schema') :
    Pruned rename .schema (schema.body root) (schema'.body root) := by
  obtain ⟨rename', injective, hpruned⟩ := deletes.inSources _ _ _ h.denotes
  rw [Bundled.body, Bundled.body, h.target_eq]
  exact (hpruned.relocated injective root schema.target.file).unlabelled rename

/-- **Bundling in step.**  A document and one that has lost siblings of references are bundled to
documents that read alike, or fail with the same fault. -/
theorem bundle_inStep (deletes : DeletesSiblings tree other shelf shelf' root document document')
    (alike : ComparesAlike tree other shelf shelf' root document document')
    (accepted : checkDocument document = .ok document)
    (accepted' : checkDocument document' = .ok document') :
    InStep (fun result result' => ∃ rename v w, result = v.unlabelled ∧ result' = w.unlabelled ∧
        ReadsAlike rename v w)
      (bundle tree shelf root document).2.outcome
      (bundle other shelf' root document').2.outcome := by
  obtain ⟨rename, injective, hpruned⟩ := deletes.inDocument
  rw [outcome_bundle, outcome_bundle]
  refine (gatherFrom_inStep deletes alike).bind ?_
  intro gathering gathering' hgather _ hschemas
  have names := (registered_of_gatherFrom hgather).names
  have hbundled : List.Forall₂ (fun schema schema' => schema'.name = schema.name ∧
      Pruned rename .schema (schema.body root) (schema'.body root))
      gathering.schemas gathering'.schemas :=
    hschemas.imp fun schema schema' hpair => ⟨hpair.name_eq, hpair.body deletes rename⟩
  have hinstall := install_inStep (hpruned.relocated injective root root)
    (checkDocument_relocated accepted root root) (checkDocument_relocated accepted' root root)
    hbundled names (hschemas.imp fun schema schema' hpair own own' hown hown' => ?_)
  · exact hinstall.map fun v w hreads => ⟨rename, v, w, rfl, rfl, hreads⟩
  · rw [hpair.own_name] at hown hown' ⊢
    exact alike.installed _ _ _ _ _ hpair.denotes hown hown'

end Bundling

end SchemaCodecs
