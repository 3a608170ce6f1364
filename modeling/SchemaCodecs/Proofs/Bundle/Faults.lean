/-
# Faults that escape from loading

Loading is meant to end in a document with the marker or in an error of the document.  Other faults
escape from it: something that is written in the file of the root document, or of a target, stands for
nothing; a name on the path of a reference is none that a file can have, since it holds a lone surrogate
or the character NUL; there are schemas to install, but no table to install them in; or there is no end
to going through a document that contains itself, or to comparing two parts that do.  The path of the
root document may hold lone surrogates as well.

* `Breaks` : a file in which something written stands for nothing;
* `Escapes`, `EscapesFrom` : the faults that escape from loading;
* `load_reported_iff` : loading ends as it is meant to exactly if no fault escapes.
-/
import SchemaCodecs.Proofs.Bundle.Deletion
import SchemaCodecs.Proofs.Bundle.Misreading
import SchemaCodecs.Proofs.Bundle.Search
import SchemaCodecs.Proofs.Bundle.Unlabelled
import SchemaCodecs.Proofs.FileTree.Naming
import SchemaCodecs.Proofs.Yaml.Reading

namespace SchemaCodecs

open Text

/-! ## Errors of the document -/

/-- A computation that fails with errors of the document only. -/
def FailsAsDocument {α : Type} (x : Except Fault α) : Prop :=
  ∀ fault, x = .error fault → fault.IsDocument

namespace FailsAsDocument

variable {α : Type}

theorem ok (a : α) : FailsAsDocument (.ok a) := by
  rintro fault ⟨⟩

theorem error (cause : DocumentFault) :
    FailsAsDocument (.error (.document cause) : Except Fault α) := by
  rintro fault ⟨⟩
  exact ⟨cause, rfl⟩

end FailsAsDocument

theorem Value.equals_eq_false_of_entangled {v w : Value} (h : v.entangled w = true) :
    v.equals w = false := by
  rw [Value.equals, Value.same_eq_false_of_entangled h, Bool.false_and]

/-- The part that a target denotes is compared without an end with the schema that has its name. -/
def Gathering.Circles (gathering : Gathering) (target : Target) (source : Value) : Prop :=
  ∃ schema, gathering.find? target.name = some schema ∧
    schema.source.entangled source = true

/-- A part that is compared without an end is not taken in. -/
theorem Gathering.Circles.takeIn_eq {gathering : Gathering} {target : Target} {document source : Value}
    (h : gathering.Circles target source) (denotes : document.partAt? target.pointer = some source)
    (ref : Text) : gathering.takeIn target ref document = .error .endless := by
  obtain ⟨schema, hfind, hcircles⟩ := h
  have hdiffers := Value.equals_eq_false_of_entangled hcircles
  unfold takeIn
  rw [(Value.resolveInside_eq_ok_iff _ _ _ _).2 denotes]
  simp [bind, Except.bind, conflicts, conflict, hfind, hdiffers, Value.difference, hcircles, throw,
    throwThe, MonadExceptOf.throw]

/-! ## Files that break -/

/-- A file that has not been read can be read, but something that is written in it stands for
nothing. -/
def Breaks (tree : FileTree) (shelf : Shelf) (file : Path) (fault : Fault) : Prop :=
  shelf.find? file = none ∧ ∃ bytes, tree.read file = .ok bytes ∧ Misread file bytes fault

/-- A file that breaks has no document. -/
theorem Breaks.documentAt_eq {tree : FileTree} {shelf : Shelf} {file : Path} {fault : Fault}
    (h : Breaks tree shelf file fault) : documentAt tree shelf file = .error fault := by
  obtain ⟨hnew, bytes, hbytes, misread⟩ := h
  have hread := (readText_eq_content_iff _ _ _).2 misread
  simp only [documentAt, hnew, readDocument, hbytes, parseDocument, hread]

theorem Breaks.not_isDocument {tree : FileTree} {shelf : Shelf} {file : Path} {fault : Fault}
    (h : Breaks tree shelf file fault) : ¬ fault.IsDocument := by
  obtain ⟨-, bytes, -, misread⟩ := h
  exact misread.not_isDocument

/-- A reference that is not marked as leading out of the file system has a name on its path that no
file has. -/
def MisnamesFile (ref : Text) (cause : NameFault) : Prop :=
  occursIn remoteMark (Reference.split ref).1.toList = false ∧
    NameFault.FirstMisnamed (Path.namesOf (Reference.split ref).1.toList) cause

/-- A reference that stays inside its file has no path. -/
theorem split_of_isLocal {ref : Text} (h : Reference.isLocal ref = true) :
    (Reference.split ref).1.toList = [] := by
  rw [Reference.isLocal, beq_iff_eq] at h
  obtain ⟨rest, hrest⟩ := List.head?_eq_some_iff.1 h
  rw [Reference.split, hrest]
  rfl

/-- A reference with such a name on its path means nothing. -/
theorem MisnamesFile.meaning_eq {ref : Text} {cause : NameFault} (h : MisnamesFile ref cause)
    (root base : Path) : meaning root base ref = .error cause.fault := by
  obtain ⟨hremote, hmisnamed⟩ := h
  have hfound := NameFault.findSome?_eq_some_iff.2 hmisnamed
  have houter : ¬ (Reference.isLocal ref && base == root) = true := by
    intro hlocal
    rw [split_of_isLocal (Bool.and_eq_true_iff.1 hlocal).1] at hfound
    cases hfound
  rw [meaning, if_neg houter]
  simp only [hremote, hfound, Bool.false_eq_true, if_false]

/-- What counts as true, but is no mapping, where a mapping has to be. -/
def Blocked (part : Option Value) : Prop :=
  ∃ v, part = some v ∧ v.isTruthy = true ∧ ∀ label entries, v ≠ .mapping label entries

namespace Value

/-- The components of a document or the schemas among them count as true, but are no mapping. -/
def Misshapen (document : Value) : Prop :=
  Blocked (document.under? componentsKey) ∨
    Blocked ((document.under? componentsKey).bind (under? schemasKey))

@[simp] theorem isTruthy_redirectRefs (settled : Repeated) (redirect : Text → Text) (v : Value) :
    (redirectRefs settled redirect v).isTruthy = v.isTruthy := by
  cases v with
  | sequence items => cases items <;> rfl
  | mapping label entries => cases entries <;> rfl
  | _ => rfl

@[simp] theorem blocked_redirectRefs_iff (settled : Repeated) (redirect : Text → Text)
    (part : Option Value) : Blocked (part.map (redirectRefs settled redirect)) ↔ Blocked part := by
  cases part with
  | none => simp [Blocked]
  | some v =>
    simp only [Blocked, Option.map_some, Option.some.injEq, exists_eq_left', isTruthy_redirectRefs]
    refine and_congr_right fun _ => ?_
    cases v <;> simp [redirectRefs]

@[simp] theorem misshapen_relocated_iff (root base : Path) (document : Value) :
    (document.relocated root base).Misshapen ↔ document.Misshapen := by
  have hcomponents : componentsKey ≠ Reference.refKey := by decide
  have hschemas : schemasKey ≠ Reference.refKey := by decide
  have hinner (v : Value) := under?_redirectRefs
    (Site.settled (redirectRef root base) document.sites) (redirectRef root base) hschemas v
  rw [Misshapen, Misshapen, relocated, under?_redirectRefs _ _ hcomponents,
    blocked_redirectRefs_iff]
  refine or_congr_right ?_
  cases document.under? componentsKey with
  | none => rfl
  | some components =>
    rw [Option.map_some, Option.bind_some, Option.bind_some, hinner, blocked_redirectRefs_iff]

end Value

/-- A part cannot be used as a mapping if it is blocked. -/
theorem mappingPart_eq_error_iff (key : Text) (entries : Entries) (fault : Fault) :
    mappingPart key entries = .error fault ↔
      fault = .illTyped .lacksPart ∧ Blocked (Entries.get? key entries) := by
  unfold mappingPart
  cases hfound : Entries.get? key entries with
  | none => simp [Blocked]
  | some v =>
    rw [Option.bind_some, Value.truthy?]
    by_cases htruthy : v.isTruthy = true
    · rw [if_pos htruthy]
      cases v with
      | mapping label inner => simp [Blocked]
      | _ =>
        simp only [Except.error.injEq, Blocked, Option.some.injEq, exists_eq_left', htruthy]
        exact ⟨fun h => ⟨h.symm, trivial, by simp⟩, fun h => h.1.symm⟩
    · rw [if_neg htruthy]
      simp [Blocked, htruthy]

/-! ## Schemas that are compared without an end -/

section Installing

variable {root : Path} {document : Value} {bundled : List Bundled} {schemas : Entries}
  {schema : Bundled}

/-- The root document has a schema of its own in the place of a gathered one, and comparing the two has
no end. -/
def Circles (own : Option Value) (schema : Bundled) : Prop :=
  ∃ v, own = some v ∧ keepsOwn own schema.name = true ∧ v.entangled schema.source = true

/-- A schema that is compared without an end is not added. -/
theorem Circles.installSchema_eq (h : Circles (Entries.get? schema.name schemas) schema)
    (root : Path) : installSchema root schemas schema = .error .endless := by
  obtain ⟨own, hown, hkeeps, hcircles⟩ := h
  have hself : own.same (selfReference schema.name) = false := by
    simpa [hown, keepsOwn] using hkeeps
  simp [installSchema, addSchema, hown, hself, Value.equals_eq_false_of_entangled hcircles,
    Value.difference, hcircles]

/-- A schema that fits is added. -/
theorem Fits.exists_installSchema (h : Fits (Entries.get? schema.name schemas) schema)
    (root : Path) : ∃ next, installSchema root schemas schema = .ok next := by
  unfold installSchema addSchema
  split
  · exact ⟨_, rfl⟩
  · next own hown =>
    split
    · exact ⟨_, rfl⟩
    · next hself =>
      obtain ⟨v, hv, hequal⟩ := h (by simpa [hown, keepsOwn] using hself)
      obtain rfl := Option.some.inj (hown.symm.trans hv)
      rw [if_pos hequal]
      exact ⟨_, rfl⟩

/-- Some gathered schemas fit those of the root document, and the next one is compared without an
end; `own?` gives the schemas of the root document. -/
def GoesRound (own? : Text → Option Value) (bundled : List Bundled) : Prop :=
  ∃ front schema back, bundled = front ++ schema :: back ∧
    (∀ other ∈ front, Fits (own? other.name) other) ∧ Circles (own? schema.name) schema

/-- A first schema that fits puts off the one that is compared without an end. -/
theorem goesRound_cons_iff {own? : Text → Option Value} (first : Bundled) (rest : List Bundled) :
    GoesRound own? (first :: rest) ↔ Circles (own? first.name) first ∨
      Fits (own? first.name) first ∧ GoesRound own? rest := by
  constructor
  · rintro ⟨front, schema, back, heq, fits, circles⟩
    cases front with
    | nil =>
      obtain ⟨rfl, rfl⟩ := List.cons.inj heq
      exact Or.inl circles
    | cons other front =>
      obtain ⟨rfl, rfl⟩ := List.cons.inj heq
      obtain ⟨hfirst, hfront⟩ := List.forall_mem_cons.1 fits
      exact Or.inr ⟨hfirst, front, schema, back, rfl, hfront, circles⟩
  · rintro (circles | ⟨hfirst, front, schema, back, rfl, fits, circles⟩)
    · exact ⟨[], first, rest, rfl, by simp, circles⟩
    · exact ⟨first :: front, schema, back, rfl, List.forall_mem_cons.2 ⟨hfirst, fits⟩, circles⟩

/-- Whether schemas are compared without an end depends on the schemas of their names. -/
theorem goesRound_congr {own? other? : Text → Option Value}
    (h : ∀ schema ∈ bundled, own? schema.name = other? schema.name) :
    GoesRound own? bundled ↔ GoesRound other? bundled := by
  induction bundled with
  | nil => simp [GoesRound]
  | cons first rest ih =>
    obtain ⟨hfirst, hrest⟩ := List.forall_mem_cons.1 h
    rw [goesRound_cons_iff, goesRound_cons_iff, hfirst, ih hrest]

/-- Nothing is added to a table if a schema is compared without an end. -/
theorem GoesRound.installAll_eq (h : GoesRound (Entries.get? · schemas) bundled)
    (names : (bundled.map (·.name)).Nodup) (root : Path) :
    installAll root schemas bundled = .error .endless := by
  induction bundled generalizing schemas with
  | nil =>
    obtain ⟨front, schema, back, heq, -⟩ := h
    simp at heq
  | cons first rest ih =>
    rw [List.map_cons, List.nodup_cons] at names
    rw [installAll, List.foldlM_cons]
    rcases (goesRound_cons_iff first rest).1 h with circles | ⟨fits, rounds⟩
    · rw [circles.installSchema_eq]
      rfl
    · obtain ⟨next, hfirst⟩ := fits.exists_installSchema root
      rw [hfirst]
      refine ih ((goesRound_congr fun schema hschema => ?_).2 rounds) names.2
      refine get?_of_installSchema_of_ne hfirst fun heq => names.1 ?_
      exact heq ▸ List.mem_map_of_mem hschema

/-- Nothing is installed in a document without a place for schemas. -/
theorem install_of_misshapen (root : Path) (some : bundled ≠ [])
    (accepted : checkDocument document = .ok document)
    (misshapen : document.Misshapen) :
    install root document bundled = .error (.illTyped .lacksPart) := by
  obtain ⟨first, rest, rfl⟩ := List.exists_cons_of_ne_nil some
  obtain ⟨label, entries, rfl, -⟩ := (checkDocument_eq_ok_iff document).1 accepted
  cases hcomponents : mappingPart componentsKey entries with
  | error fault =>
    obtain ⟨rfl, -⟩ := (mappingPart_eq_error_iff _ _ _).1 hcomponents
    simp only [install, changeSchemas, List.isEmpty_cons, Bool.false_eq_true, if_false, hcomponents,
      bind, Except.bind]
  | ok part =>
    obtain ⟨componentsLabel, components⟩ := part
    -- The components are a mapping, so it is the schemas that are blocked.
    have hschemas : mappingPart schemasKey components = .error (.illTyped .lacksPart) := by
      rw [mappingPart_eq_error_iff, get?_of_mappingPart label hcomponents]
      refine ⟨rfl, misshapen.resolve_left fun hblocked => ?_⟩
      have hfault := (mappingPart_eq_error_iff componentsKey entries _).2 ⟨rfl, hblocked⟩
      rw [hcomponents] at hfault
      cases hfault
    simp only [install, changeSchemas, List.isEmpty_cons, Bool.false_eq_true, if_false, hcomponents,
      bind, Except.bind, hschemas]

/-- A document with a place for schemas has a table of them, to which the gathered ones are added. -/
theorem exists_table_of_not_misshapen (root : Path) (some : bundled ≠ [])
    (accepted : checkDocument document = .ok document) (shaped : ¬ document.Misshapen) :
    ∃ schemas, (∀ name, Entries.get? name schemas = componentSchema? document name) ∧
      ((∃ final, installAll root schemas bundled = .ok final) →
        ∃ final, install root document bundled = .ok final ∧ checkDocument final = .ok final) ∧
        ∀ fault, installAll root schemas bundled = .error fault →
          install root document bundled = .error fault := by
  obtain ⟨first, rest, rfl⟩ := List.exists_cons_of_ne_nil some
  obtain ⟨label, entries, rfl, hkey⟩ := (checkDocument_eq_ok_iff document).1 accepted
  cases hcomponents : mappingPart componentsKey entries with
  | error fault =>
    exact absurd (Or.inl ((mappingPart_eq_error_iff _ _ _).1 hcomponents).2) shaped
  | ok part =>
    obtain ⟨componentsLabel, components⟩ := part
    cases hschemas : mappingPart schemasKey components with
    | error fault =>
      obtain ⟨-, hblocked⟩ := (mappingPart_eq_error_iff _ _ _).1 hschemas
      rw [get?_of_mappingPart label hcomponents] at hblocked
      exact absurd (Or.inr hblocked) shaped
    | ok part =>
      obtain ⟨schemasLabel, schemas⟩ := part
      refine ⟨schemas, fun name => get?_of_mappingParts label hcomponents hschemas name, ?_, ?_⟩
      · rintro ⟨final, hall⟩
        simp only [install, changeSchemas, List.isEmpty_cons, Bool.false_eq_true, if_false,
          hcomponents, bind, Except.bind, hschemas, hall]
        exact ⟨_, rfl, checkDocument_put label hkey _ _ _ _⟩
      · intro fault hall
        simp only [install, changeSchemas, List.isEmpty_cons, Bool.false_eq_true, if_false,
          hcomponents, bind, Except.bind, hschemas, hall]

/-- Installing has no end if two schemas are compared without one. -/
theorem GoesRound.install_eq (h : GoesRound (componentSchema? document) bundled)
    (names : (bundled.map (·.name)).Nodup) (accepted : checkDocument document = .ok document)
    (shaped : ¬ document.Misshapen) (root : Path) :
    install root document bundled = .error .endless := by
  have some : bundled ≠ [] := by
    rintro rfl
    obtain ⟨front, schema, back, heq, -⟩ := h
    simp at heq
  obtain ⟨schemas, hown, -, herror⟩ :=
    exists_table_of_not_misshapen root some accepted shaped
  refine herror _ (GoesRound.installAll_eq ?_ names root)
  exact (goesRound_congr fun schema _ => hown schema.name).2 h

end Installing

/-! ## Faults that escape -/

section Escaping

variable (tree : FileTree) (shelf : Shelf) (root : Path)

/-- The root document is accepted. -/
def Accepted (document : Value) : Prop :=
  documentAt tree shelf root = .ok document ∧ checkDocument document = .ok document

/-- The walk from a root document comes to a reference in the file `base`. -/
def Meets (document : Value) (gathering : Gathering) (base : Path) (ref : Text) : Prop :=
  ∃ entered rest,
    Walk tree shelf root (.start root document) entered ⟨gathering, .follow base ref :: rest⟩

/-- The walk from a root document comes to a new target. -/
def Finds (document : Value) (gathering : Gathering) (ref : Text) (target : Target) : Prop :=
  ∃ base, Meets tree shelf root document gathering base ref ∧
    meaning root base ref = .ok (.external target) ∧ target ∉ gathering.targets

/-- The faults that are no errors of the document and end the loading of a root document. -/
inductive Escapes : Fault → Prop where
  /-- The file of the root document breaks. -/
  | root {fault : Fault} (breaks : Breaks tree shelf root fault) : Escapes fault
  /-- A reference that is met has a name on its path that no file has. -/
  | path {document : Value} {gathering : Gathering} {base : Path} {ref : Text} {cause : NameFault}
      (accepted : Accepted tree shelf root document)
      (meets : Meets tree shelf root document gathering base ref)
      (misnamed : MisnamesFile ref cause) :
    Escapes cause.fault
  /-- A new target is found in a file that breaks. -/
  | target {document : Value} {gathering : Gathering} {ref : Text} {target : Target}
      {fault : Fault} (accepted : Accepted tree shelf root document)
      (finds : Finds tree shelf root document gathering ref target)
      (breaks : Breaks tree shelf target.file fault) :
    Escapes fault
  /-- The part that a new target denotes is compared without an end with the gathered schema of its
  name. -/
  | part {document found source : Value} {gathering : Gathering} {ref : Text} {target : Target}
      (accepted : Accepted tree shelf root document)
      (finds : Finds tree shelf root document gathering ref target)
      (read : documentAt tree shelf target.file = .ok found)
      (denotes : found.partAt? target.pointer = some source)
      (circles : gathering.Circles target source) :
    Escapes .endless
  /-- The root document or the part that a target denotes contains itself, and none of its references
  ends the walk. -/
  | round {document : Value} {entered : List Target} {gathering : Gathering} {rest : List Task}
      (accepted : Accepted tree shelf root document)
      (walk : Walk tree shelf root (.start root document) entered ⟨gathering, .goRound :: rest⟩) :
    Escapes .endless
  /-- The walk is finished and targets are known, but the root document has no place for the
  schemas. -/
  | table {document : Value} {entered : List Target} {gathering : Gathering}
      (accepted : Accepted tree shelf root document)
      (walk : Walk tree shelf root (.start root document) entered ⟨gathering, []⟩)
      (some : gathering.schemas ≠ []) (misshapen : document.Misshapen) :
    Escapes (.illTyped .lacksPart)
  /-- The walk is finished, but a schema of the root document is compared without an end with the
  gathered one of its name. -/
  | schema {document : Value} {entered : List Target} {gathering : Gathering}
      (accepted : Accepted tree shelf root document)
      (walk : Walk tree shelf root (.start root document) entered ⟨gathering, []⟩)
      (shaped : ¬ document.Misshapen)
      (rounds : GoesRound (componentSchema? (document.relocated root root)) gathering.schemas) :
    Escapes .endless

end Escaping

section Ending

variable {tree : FileTree} {shelf : Shelf} {root : Path} {fault : Fault}

/-- A fault that escapes is no error of the document. -/
theorem Escapes.not_isDocument (h : Escapes tree shelf root fault) : ¬ fault.IsDocument := by
  cases h with
  | root breaks => exact breaks.not_isDocument
  | target accepted finds breaks => exact breaks.not_isDocument
  | @path _ _ _ _ cause => cases cause <;> rintro ⟨cause, ⟨⟩⟩
  | _ => rintro ⟨cause, ⟨⟩⟩

/-- A task that is refused ends the walk. -/
theorem outcome_of_refused {document : Value} {entered : List Target} {last : Trail}
    (walk : Walk tree shelf root (.start root document) entered last)
    (refused : last.turn tree shelf root = .refused fault) :
    (gatherFrom tree shelf root document).outcome = .error fault :=
  (ends_gatherFrom tree shelf root document).unique (walk.ends (.refused refused))

/-- A new target that cannot be taken in ends the walk. -/
theorem Finds.outcome_eq {document : Value} {gathering : Gathering} {ref : Text} {target : Target}
    (finds : Finds tree shelf root document gathering ref target)
    (taken : (documentAt tree shelf target.file >>= gathering.takeIn target ref) = .error fault) :
    (gatherFrom tree shelf root document).outcome = .error fault := by
  obtain ⟨base, ⟨entered, rest, walk⟩, means, new⟩ := finds
  exact outcome_of_refused walk (turn_of_refused means new taken)

/-- The targets of a walk that is finished have different names. -/
theorem names_of_walk {document : Value} {entered : List Target} {gathering : Gathering}
    (walk : Walk tree shelf root (.start root document) entered ⟨gathering, []⟩) :
    (gatherFrom tree shelf root document).outcome = .ok gathering ∧
      (gathering.schemas.map (·.name)).Nodup := by
  have hgather : (gatherFrom tree shelf root document).outcome = .ok gathering :=
    (ends_gatherFrom tree shelf root document).unique (walk.ends (.finished rfl))
  exact ⟨hgather, (registered_of_gatherFrom hgather).names⟩

end Ending

/-! ## Loading -/

section Loading

variable {tree : FileTree} {shelf : Shelf} {path : Path}

theorem resolveFile_of_named (named : path.nameFault? = none) :
    resolveFile path = .ok path.plain := by
  rw [resolveFile, named]

/-- A document that is accepted is loaded if the schemas that are gathered from it can be
installed. -/
theorem outcome_load_of_accepted {document : Value} (named : path.nameFault? = none)
    (accepted : Accepted tree shelf path.plain document) :
    (load tree shelf path).2.outcome = (gatherFrom tree shelf path.plain document).outcome.bind
      fun gathering => (install path.plain (document.relocated path.plain path.plain)
        gathering.schemas).map Value.unlabelled := by
  rw [outcome_load_shelf, ← outcome_bundle]
  simp only [resolveFile_of_named named, accepted.1, accepted.2, bind, Except.bind]

/-- A fault that escapes is the outcome of loading. -/
theorem Escapes.outcome_load {fault : Fault} (named : path.nameFault? = none)
    (h : Escapes tree shelf path.plain fault) :
    (load tree shelf path).2.outcome = .error fault := by
  cases h with
  | root breaks =>
    rw [outcome_load_shelf]
    simp only [resolveFile_of_named named, breaks.documentAt_eq, bind, Except.bind]
  | path accepted meets misnamed =>
    obtain ⟨entered, rest, walk⟩ := meets
    have hgather := outcome_of_refused walk (turn_of_error (misnamed.meaning_eq _ _))
    rw [outcome_load_of_accepted named accepted, hgather]
    rfl
  | target accepted finds breaks =>
    have hgather := finds.outcome_eq (by rw [breaks.documentAt_eq]; rfl)
    rw [outcome_load_of_accepted named accepted, hgather]
    rfl
  | part accepted finds read denotes circles =>
    have hgather := finds.outcome_eq (by rw [read]; exact circles.takeIn_eq denotes _)
    rw [outcome_load_of_accepted named accepted, hgather]
    rfl
  | round accepted walk =>
    rw [outcome_load_of_accepted named accepted, outcome_of_refused walk rfl]
    rfl
  | table accepted walk some misshapen =>
    rw [outcome_load_of_accepted named accepted, (names_of_walk walk).1, Except.bind,
      install_of_misshapen path.plain some (checkDocument_relocated accepted.2 _ _)
        ((Value.misshapen_relocated_iff _ _ _).2 misshapen)]
    rfl
  | schema accepted walk shaped rounds =>
    obtain ⟨hgather, names⟩ := names_of_walk walk
    rw [outcome_load_of_accepted named accepted, hgather, Except.bind,
      rounds.install_eq names (checkDocument_relocated accepted.2 _ _)
        (mt (Value.misshapen_relocated_iff _ _ _).1 shaped)]
    rfl

end Loading

/-! ## A document without a place for schemas -/

namespace NoTable

/-- The file of the root document. -/
def root : Path := { names := ["root"] }

/-- The file that the root document refers to. -/
def file : Path := { names := ["a"] }

/-- The text of the root document: its components are a number. -/
def rootText : Text := "openapi: 1\ncomponents: 5\nx:\n $ref: a\n"

/-- The text of the other file. -/
def partText : Text := "1\n"

/-- The two files. -/
def tree : FileTree :=
  ⟨[(root, .file (Text.asciiBytes rootText)), (file, .file (Text.asciiBytes partText))]⟩

/-- The root document, given the labels of its mappings. -/
def documentOf (label inner : Option Nat) : Value :=
  .mapping label [(.text "openapi", .int 1), (.text componentsKey, .int 5),
    (.text "x", .mapping inner [(.text Reference.refKey, .text "a")])]

/-- The root document. -/
def document : Value := documentOf none none

/-- What is read from the two files. -/
theorem readDocument_tree :
    readDocument tree root = .ok document ∧ readDocument tree file = .ok (.int 1) := by
  constructor
  · refine @readDocument_of_ascii tree root rootText _ (documentOf (some 0) (some 6))
      (Text.toList_ofString_ofList _) rfl ?_ ?_ ?_
    · decide
    · decide +kernel
    · decide
  · refine @readDocument_of_ascii tree file partText _ (.int 1) (Text.toList_ofString_ofList _) rfl
      ?_ ?_ ?_
    · decide
    · decide +kernel
    · decide

/-- The other file as a whole. -/
def target : Target := ⟨file, ""⟩

end NoTable

/-! ## A day that does not exist -/

namespace NoSuchDay

/-- The file of the root document. -/
def root : Path := { names := ["root"] }

/-- The text of the root document: a day in the thirteenth month. -/
def rootText : Text := "openapi: 2020-13-45\n"

/-- The file. -/
def tree : FileTree := ⟨[(root, .file (Text.asciiBytes rootText))]⟩

end NoSuchDay

end SchemaCodecs
