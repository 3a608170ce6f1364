/-
# Aliases as an abbreviation

A document with aliases is bundled like the document in which every repeated mapping is written out,
as long as redirecting a repeated mapping does not change what it says.  It may do so in another file,
where a reference that has been redirected is read as one of this file.

* `Copies` : a trail and its counterpart without labels;
* `CopiesSettle` : when repeated mappings say the same at each place;
* `load_writtenOut` : then a document is loaded like the one that is written out.
-/
import SchemaCodecs.Proofs.Bundle.Search
import SchemaCodecs.Proofs.Bundle.SelfContained
import SchemaCodecs.Proofs.Bundle.Unlabelled
import SchemaCodecs.Proofs.Compile.Stages
import SchemaCodecs.Proofs.FileTree.Contents
import SchemaCodecs.Proofs.Yaml.Reading

namespace SchemaCodecs

/-! ## Trails without labels -/

section Trails

variable (tree expanded : FileTree) (shelf shelf' : Shelf) (root : Path) (document : Value)

/-- Repeated mappings say the same at each place of what is bundled: the redirections of their
references come to rest at once, and no mapping to which schemas are added is repeated. -/
structure CopiesSettle : Prop where
  /-- In the root document. -/
  inDocument : document.Settles root root
  /-- In the parts that references lead to which are met. -/
  inSource : ∀ base ref target source, Met tree shelf root document base ref →
    meaning root base ref = .ok (.external target) → sourceAt? tree shelf target = some source →
      source.Settles root target.file
  /-- In the tables, if a reference leads out of the root document. -/
  inTables : ∀ base ref target, Met tree shelf root document base ref →
    meaning root base ref = .ok (.external target) → document.TablesApart

/-- A trail, and the one without labels at the same point. -/
structure Copies (trail other : Trail) : Prop where
  /-- The same was gathered. -/
  gathering : other.gathering = trail.gathering.unlabelled
  /-- The tasks come to the same. -/
  tasks : Alike root trail.gathering.targets trail.tasks other.tasks
  /-- The tasks are for references that are met. -/
  met : ∀ base ref, .follow base ref ∈ trail.tasks → Met tree shelf root document base ref
  /-- A schema is the part that a reference leads to which is met. -/
  schemas : ∀ schema ∈ trail.gathering.schemas, ∃ base ref, Met tree shelf root document base ref ∧
    meaning root base ref = .ok (.external schema.target) ∧
      sourceAt? tree shelf schema.target = some schema.source

variable {tree expanded shelf shelf' root document}

/-- At first nothing is gathered, and the references of the root document come to the same. -/
theorem Copies.start {held : Nat → Entries} (settles : CopiesSettle tree shelf root document)
    (finite : document.isFinite = true) (shares : document.Shares held) :
    Copies tree shelf root document (.start root document) (.start root document.unlabelled) where
  gathering := rfl
  tasks := alike_tasksFor finite settles.inDocument shares []
  met := fun base ref hmem => met_of_start hmem
  schemas := by simp [Trail.start]

/-- Taking in a new target keeps the correspondence. -/
theorem Copies.into {gathering : Gathering} {rest rest' : List Task} {base : Path} {ref : Text}
    {target : Target} {source : Value} {held : Nat → Entries}
    (settles : CopiesSettle tree shelf root document)
    (h : Copies tree shelf root document ⟨gathering, .follow base ref :: rest⟩
      ⟨gathering.unlabelled, .follow base ref :: rest'⟩)
    (means : meaning root base ref = .ok (.external target))
    (denotes : sourceAt? tree shelf target = some source) (finite : source.isFinite = true)
    (shares : source.Shares held)
    (alike : Alike root (target :: gathering.targets) rest rest') :
    Copies tree shelf root document
      ⟨gathering.extend target source,
        tasksFor root target.file source ++ .close ref target.name :: rest⟩
      ⟨gathering.unlabelled.extend target source.unlabelled,
        tasksFor root target.file source.unlabelled ++ .close ref target.name :: rest'⟩ where
  gathering := (gathering.unlabelled_extend target source).symm
  tasks := by
    have hmet := h.met base ref List.mem_cons_self
    have hsettles := settles.inSource base ref target source hmet means denotes
    have hsource := alike_tasksFor finite hsettles shares (target :: gathering.targets)
    exact hsource.append (.close ref target.name alike)
  met := fun base' ref' hmem => met_of_into h.met means denotes hmem
  schemas := by
    intro schema hschema
    rcases Gathering.mem_putSchema hschema with rfl | hschema
    · exact ⟨base, ref, h.met base ref List.mem_cons_self, means, denotes⟩
    · exact h.schemas schema hschema

/-- Passing a task keeps the correspondence. -/
theorem Copies.past {gathering : Gathering} {task task' : Task} {rest rest' : List Task}
    (h : Copies tree shelf root document ⟨gathering, task :: rest⟩
      ⟨gathering.unlabelled, task' :: rest'⟩)
    (alike : Alike root gathering.targets rest rest') :
    Copies tree shelf root document ⟨gathering, rest⟩ ⟨gathering.unlabelled, rest'⟩ :=
  { h with
    tasks := alike
    met := fun base ref hmem => h.met base ref (List.mem_cons_of_mem _ hmem) }

/-- A new target is taken in without labels in step with the one with labels. -/
theorem takeIn_unlabelled_inStep {target : Target}
    (hdocument : documentAt expanded shelf' target.file
      = (documentAt tree shelf target.file).map Value.unlabelled)
    (finite : ∀ found, documentAt tree shelf target.file = .ok found → found.isFinite = true)
    (gathering : Gathering) (ref : Text) :
    InStep (fun taken taken' => ∃ source, sourceAt? tree shelf target = some source ∧
        taken = (source, gathering.extend target source) ∧
          taken' = (source.unlabelled, (gathering.extend target source).unlabelled))
      (documentAt tree shelf target.file >>= gathering.takeIn target ref)
      (documentAt expanded shelf' target.file >>= gathering.unlabelled.takeIn target ref) := by
  rw [hdocument]
  cases hfound : documentAt tree shelf target.file with
  | error fault => exact .error fault
  | ok found =>
    simp only [Except.map, bind, Except.bind,
      gathering.takeIn_unlabelled target ref (finite found hfound)]
    cases htaken : gathering.takeIn target ref found with
    | error fault => exact .error fault
    | ok taken =>
      obtain ⟨source, next⟩ := taken
      obtain ⟨hpart, -, rfl⟩ := (gathering.takeIn_eq_ok_iff target ref found source next).1 htaken
      exact .ok ⟨source, (sourceAt?_eq_some_iff _ _ _ _).2 ⟨found, hfound, hpart⟩, rfl, rfl⟩

/-- **One turn.**  Corresponding trails take turns of the same kind to corresponding trails. -/
theorem Copies.turn (settles : CopiesSettle tree shelf root document)
    (documents : ∀ file, file.IsPlain →
      documentAt expanded shelf' file = (documentAt tree shelf file).map Value.unlabelled)
    (shared : ∀ file found, file.IsPlain → documentAt tree shelf file = .ok found →
      found.isFinite = true ∧ ∃ held, found.Shares held)
    {trail other : Trail} (h : Copies tree shelf root document trail other) :
    (trail.turn tree shelf root).Matches (Copies tree shelf root document) Eq
      (other.turn expanded shelf' root) := by
  obtain ⟨gathering, tasks⟩ := trail
  obtain ⟨gathering', tasks'⟩ := other
  obtain rfl : gathering' = gathering.unlabelled := h.gathering
  have halike : Alike root gathering.targets tasks tasks' := h.tasks
  cases halike with
  | done => exact trivial
  | close ref name next => exact h.past next
  | fault means rest rest' =>
    rw [turn_of_error means, turn_of_error means]
    exact rfl
  | pass passes passes' next =>
    have hpasses' : Passes root gathering.unlabelled.targets _ _ := passes'
    rw [turn_of_passes passes, turn_of_passes hpasses']
    exact h.past next
  | @lead _ base ref target rest rest' means next =>
    refine Turn.matches_follow rfl ?_ ?_
    · rintro ⟨meant, hmeant, known⟩
      have hmem : target ∈ gathering.targets := known target (Except.ok.inj (hmeant.symm.trans means))
      exact h.past (next.mono (List.cons_subset.2 ⟨hmem, List.Subset.refl _⟩))
    · intro other hother _
      obtain rfl := Meaning.external.inj (Except.ok.inj (hother.symm.trans means))
      refine (takeIn_unlabelled_inStep (documents _ (isPlain_of_meaning means))
        (fun found hfound => (shared _ found (isPlain_of_meaning means) hfound).1) gathering
        ref).imp ?_
      rintro _ _ ⟨source, denotes, rfl, rfl⟩
      obtain ⟨found, hfound, hpart⟩ := (sourceAt?_eq_some_iff _ _ _ _).1 denotes
      obtain ⟨hfinite, held, hheld⟩ := shared _ found (isPlain_of_meaning means) hfound
      rw [gathering.unlabelled_extend _ source]
      exact h.into settles means denotes (Value.isFinite_part hpart hfinite)
        (hheld.part hpart hfinite) next

/-- A schema that is gathered with labels is installed like the one without, and does not contain
itself. -/
theorem Copies.body_unlabelled (settles : CopiesSettle tree shelf root document)
    (read : ∀ file found, file.IsPlain → documentAt tree shelf file = .ok found →
      found.Distinct ∧ found.isFinite = true ∧ ∃ held, found.Shares held)
    {trail other : Trail} (h : Copies tree shelf root document trail other) {schema : Bundled}
    (hschema : schema ∈ trail.gathering.schemas) :
    schema.source.isFinite = true ∧ schema.unlabelled.body root = schema.body root := by
  obtain ⟨base, ref, hmet, means, denotes⟩ := h.schemas schema hschema
  obtain ⟨found, hfound, hpart⟩ := (sourceAt?_eq_some_iff _ _ _ _).1 denotes
  obtain ⟨hdistinct, hfinite, held, hshares⟩ := read _ found (isPlain_of_meaning means) hfound
  have hsettles := settles.inSource base ref _ _ hmet means denotes
  have hbody := Value.unlabelled_relocated hsettles (hdistinct.part hpart) (hshares.part hpart hfinite)
  exact ⟨Value.isFinite_part hpart hfinite, hbody.symm⟩

/-- If schemas are gathered, the tables in which they are installed stand at one place. -/
theorem Copies.tablesApart (settles : CopiesSettle tree shelf root document) {trail other : Trail}
    (h : Copies tree shelf root document trail other) (some : trail.gathering.schemas ≠ []) :
    (document.relocated root root).TablesApart := by
  obtain ⟨schema, hschema⟩ := List.exists_mem_of_ne_nil _ some
  obtain ⟨base, ref, hmet, means, -⟩ := h.schemas schema hschema
  exact (settles.inTables base ref _ hmet means).relocated

end Trails

/-! ## Bundling and loading -/

/-- **Bundling.**  A document in which repeated mappings say the same at each place is bundled like
the one without labels. -/
theorem bundle_unlabelled {tree expanded : FileTree} {shelf shelf' : Shelf} {root : Path}
    {document : Value} {held : Nat → Entries} (settles : CopiesSettle tree shelf root document)
    (documents : ∀ file, file.IsPlain →
      documentAt expanded shelf' file = (documentAt tree shelf file).map Value.unlabelled)
    (read : ∀ file found, file.IsPlain → documentAt tree shelf file = .ok found →
      found.Distinct ∧ found.isFinite = true ∧ ∃ held, found.Shares held)
    (distinct : document.Distinct) (finite : document.isFinite = true)
    (shares : document.Shares held) :
    (bundle expanded shelf' root document.unlabelled).2.outcome
      = (bundle tree shelf root document).2.outcome := by
  have hgathered := gatherFrom_lockstep
    (fun trail other h => h.turn settles documents fun file found plain hfound =>
      (read file found plain hfound).2)
    (Copies.start settles finite shares)
  rw [outcome_bundle, outcome_bundle]
  refine InStep.eq (hgathered.bind ?_)
  rintro gathering gathering' - - halike
  obtain rfl : gathering' = gathering.unlabelled := halike.gathering
  have hdocument : document.unlabelled.relocated root root
      = (document.relocated root root).unlabelled := by
    rw [Value.unlabelled_relocated settles.inDocument distinct shares, Value.relocated_unlabelled,
      Value.relocated_eq_withRefs _ _ (Value.aliasFree_unlabelled document)]
  have hinstall := install_unlabelled (halike.tablesApart settles)
    (fun schema hschema => (halike.body_unlabelled settles read hschema).1)
    fun schema hschema => (halike.body_unlabelled settles read hschema).2
  rw [← hdocument] at hinstall
  have hsame : (install root (document.unlabelled.relocated root root)
        gathering.unlabelled.schemas).map Value.unlabelled
      = (install root (document.relocated root root) gathering.schemas).map Value.unlabelled := by
    show (install root _ (gathering.schemas.map Bundled.unlabelled)).map _ = _
    rw [hinstall]
    cases install root (document.relocated root root) gathering.schemas with
    | error fault => rfl
    | ok final =>
      exact congrArg Except.ok (Value.unlabelled_of_aliasFree (Value.aliasFree_unlabelled final))
  rw [hsame]
  exact .refl _

/-- In the files of one tree every repeated mapping of the other one is written out; no document of
that one contains itself. -/
structure WritesOut (tree expanded : FileTree) : Prop where
  /-- No document contains itself. -/
  finite : ∀ file document, file.IsPlain → readDocument tree file = .ok document →
    document.isFinite = true
  /-- The documents are those without labels. -/
  documents : ∀ file, file.IsPlain →
    readDocument expanded file = (readDocument tree file).map Value.unlabelled

/-- **Aliases.**  If the repeated mappings of the files say the same at each place, then a document is
loaded like the one in which they are written out, or fails with the same fault. -/
theorem load_writtenOut {tree expanded : FileTree} {path : Path} (written : WritesOut tree expanded)
    (settles : ∀ file document, resolveFile path = .ok file →
      readDocument tree file = .ok document → CopiesSettle tree {} file document) :
    (load expanded {} path).2.outcome = (load tree {} path).2.outcome := by
  rw [outcome_load, outcome_load]
  cases hfile : resolveFile path with
  | error fault => rfl
  | ok file =>
    have hexpanded := written.documents file (isPlain_of_resolveFile hfile)
    cases hread : readDocument tree file with
    | error fault =>
      rw [hread] at hexpanded
      simp only [bind, Except.bind, hread, hexpanded, Except.map]
    | ok document =>
      rw [hread] at hexpanded
      simp only [bind, Except.bind, hread, hexpanded, Except.map, checkDocument_unlabelled]
      cases hcheck : checkDocument document with
      | error fault => rfl
      | ok checked =>
        obtain rfl := eq_of_checkDocument hcheck
        have hfinite := written.finite file checked (isPlain_of_resolveFile hfile) hread
        obtain ⟨held, shares⟩ := exists_shares_of_readDocument hread hfinite
        refine bundle_unlabelled (settles file checked hfile hread) written.documents ?_
          (distinct_of_readDocument hread) hfinite shares
        intro other found plain hfound
        have hfound' := written.finite other found plain hfound
        exact ⟨distinct_of_readDocument hfound, hfound', exists_shares_of_readDocument hfound hfound'⟩

/-! ## A repeated reference -/

namespace AliasedReference

/-- The root document. -/
def root : Path := { names := ["root"] }

/-- The file that the root document refers to. -/
def file : Path := { names := ["a"] }

/-- The text of the root document: two schemas are the same mapping. -/
def rootText : Text :=
  "openapi: 1\ncomponents:\n schemas:\n  A: &x\n   $ref: a#/X\n  B: *x\n"

/-- The text of the root document in which the mapping is written out. -/
def rootWritten : Text :=
  "openapi: 1\ncomponents:\n schemas:\n  A:\n   $ref: a#/X\n  B:\n   $ref: a#/X\n"

/-- The text of the other file: a repeated reference to a part of this file, which is no component
schema of it. -/
def movedText : Text := "X:\n p: &r\n  $ref: '#/Y'\n q: *r\nY:\n type: string\n"

/-- The same text in which the reference is written out. -/
def movedWritten : Text :=
  "X:\n p:\n  $ref: '#/Y'\n q:\n  $ref: '#/Y'\nY:\n type: string\n"

/-- The text of the other file: a repeated reference to a component schema of this file. -/
def steadyText : Text :=
  "X:\n p: &r\n  $ref: '#/components/schemas/Y'\n q: *r\ncomponents:\n schemas:\n  Y:\n" ++
    "   type: string\n"

/-- The same text in which the reference is written out. -/
def steadyWritten : Text :=
  "X:\n p:\n  $ref: '#/components/schemas/Y'\n q:\n  $ref: '#/components/schemas/Y'\n" ++
    "components:\n schemas:\n  Y:\n   type: string\n"

/-- The two files, without content. -/
def places : FileTree := ⟨[(root, .file []), (file, .file [])]⟩

/-- The two files with the given texts. -/
def treeOf (rootText partsText : Text) : FileTree :=
  places.withContents fun place => Text.asciiBytes (if place = root then rootText else partsText)

/-- A mapping that only holds a reference. -/
def refTo (label : Option Nat) (ref : Text) : Value :=
  .mapping label [(.text Reference.refKey, .text ref)]

/-- The root document: two schemas are the same reference. -/
def documentOf (label : Option Nat) (ref : Text) (others : Entries) : Value :=
  .table [(.text "openapi", .int 1), (.text componentsKey, .table [(.text schemasKey,
    .table ([(.text "A", refTo label ref), (.text "B", refTo label ref)] ++ others))])]

/-- A schema with two properties that are the same reference. -/
def schemaOf (label : Option Nat) (ref : Text) : Value :=
  .table [(.text "p", refTo label ref), (.text "q", refTo label ref)]

/-- A schema for texts. -/
def textSchema : Value := .table [(.text "type", .text "string")]

/-- The other file, whose reference leads to a part of it. -/
def moved (label : Option Nat) : Value :=
  .table [(.text "X", schemaOf label "#/Y"), (.text "Y", textSchema)]

/-- The other file, whose reference leads to a component schema of it. -/
def steady (label : Option Nat) : Value :=
  .table [(.text "X", schemaOf label "#/components/schemas/Y"),
    (.text componentsKey, .table [(.text schemasKey, .table [(.text "Y", textSchema)])])]

/-- What the nodes of the root file stand for, given the labels of the two schemas. -/
def rootLabelled (first second : Nat) : Value :=
  .mapping (some 0) [(.text "openapi", .int 1), (.text "components", .mapping (some 4) [
    (.text "schemas", .mapping (some 6) [(.text "A", refTo (some first) "a#/X"),
      (.text "B", refTo (some second) "a#/X")])])]

/-- What the nodes of the other file stand for, given the label of the second property and what
follows. -/
def partsLabelled (ref : Text) (second : Nat) (others : Entries) : Value :=
  .mapping (some 0) ((.text "X", .mapping (some 2) [(.text "p", refTo (some 4) ref),
    (.text "q", refTo (some second) ref)]) :: others)

/-- The nodes of the part that is no component schema. -/
def movedOthers (label : Nat) : Entries :=
  [(.text "Y", .mapping (some label) [(.text "type", .text "string")])]

/-- The nodes of the component schema. -/
def steadyOthers (outer inner label : Nat) : Entries :=
  [(.text "components", .mapping (some outer) [(.text "schemas", .mapping (some inner)
    (movedOthers label))])]

/-- What is read from the root file. -/
theorem readDocument_rootText (partsText : Text) :
    readDocument (treeOf rootText partsText) root = .ok (documentOf (some 8) "a#/X" []) ∧
      readDocument (treeOf rootWritten partsText) root = .ok (documentOf none "a#/X" []) := by
  constructor
  · have hshared : Yaml.sharedLabels (rootLabelled 8 8) = documentOf (some 8) "a#/X" [] := by cbv
    rw [← hshared]
    refine @readDocument_eq_sharedLabels (treeOf rootText partsText) root rootText _ _
      (Text.toList_ofString_ofList _) rfl ?_ ?_
    · decide
    · decide +kernel
  · refine @readDocument_of_ascii (treeOf rootWritten partsText) root rootWritten _
      (rootLabelled 8 12) (Text.toList_ofString_ofList _) rfl ?_ ?_ ?_
    · decide
    · decide +kernel
    · decide

/-- What is read from the other file if the reference leads to a part of it. -/
theorem readDocument_movedText (rootText : Text) :
    readDocument (treeOf rootText movedText) file = .ok (moved (some 4)) ∧
      readDocument (treeOf rootText movedWritten) file = .ok (moved none) := by
  constructor
  · have hshared : Yaml.sharedLabels (partsLabelled "#/Y" 4 (movedOthers 9)) = moved (some 4) := by
      cbv
    rw [← hshared]
    refine @readDocument_eq_sharedLabels (treeOf rootText movedText) file movedText _ _
      (Text.toList_ofString_ofList _) rfl ?_ ?_
    · decide
    · decide +kernel
  · refine @readDocument_of_ascii (treeOf rootText movedWritten) file movedWritten _
      (partsLabelled "#/Y" 8 (movedOthers 12)) (Text.toList_ofString_ofList _) rfl ?_ ?_ ?_
    · decide
    · decide +kernel
    · decide

/-- What is read from the other file if the reference leads to a component schema of it. -/
theorem readDocument_steadyText (rootText : Text) :
    readDocument (treeOf rootText steadyText) file = .ok (steady (some 4)) ∧
      readDocument (treeOf rootText steadyWritten) file = .ok (steady none) := by
  constructor
  · have hshared : Yaml.sharedLabels (partsLabelled "#/components/schemas/Y" 4
        (steadyOthers 9 11 13)) = steady (some 4) := by
      cbv
    rw [← hshared]
    refine @readDocument_eq_sharedLabels (treeOf rootText steadyText) file steadyText _ _
      (RefProperty.toList_append_ofList _ _) rfl ?_ ?_
    · decide
    · decide +kernel
  · refine @readDocument_of_ascii (treeOf rootText steadyWritten) file steadyWritten _
      (partsLabelled "#/components/schemas/Y" 8 (steadyOthers 12 14 16))
      (RefProperty.toList_append_ofList _ _) rfl ?_ ?_ ?_
    · decide
    · decide +kernel
    · decide

/-- Written out are the texts in which the mappings are. -/
theorem writesOut {partsText partsWritten : Text} {moved : Value} (finite : moved.isFinite = true)
    (read : readDocument (treeOf rootText partsText) file = .ok moved)
    (written : readDocument (treeOf rootWritten partsWritten) file = .ok moved.unlabelled) :
    WritesOut (treeOf rootText partsText) (treeOf rootWritten partsWritten) := by
  have each : ∀ place, place.IsPlain →
      (∀ document, readDocument (treeOf rootText partsText) place = .ok document →
          document.isFinite = true) ∧
        readDocument (treeOf rootWritten partsWritten) place
          = (readDocument (treeOf rootText partsText) place).map Value.unlabelled := by
    intro place plain
    refine FileTree.forall_readDocument_withContents
      (R := fun written read => (∀ document, read = .ok document → document.isFinite = true) ∧
        written = read.map Value.unlabelled)
      (fun fault => ⟨fun _ heq => (nomatch heq), rfl⟩) ?_ plain
    intro entry hentry
    simp only [places, List.mem_cons, List.not_mem_nil, or_false] at hentry
    rcases hentry with rfl | rfl
    · show (∀ document, readDocument (treeOf rootText partsText) root = .ok document → _) ∧
        readDocument (treeOf rootWritten partsWritten) root
          = (readDocument (treeOf rootText partsText) root).map Value.unlabelled
      rw [(readDocument_rootText partsText).1, (readDocument_rootText partsWritten).2]
      exact ⟨fun document heq => by cases heq; rfl, rfl⟩
    · show (∀ document, readDocument (treeOf rootText partsText) file = .ok document → _) ∧
        readDocument (treeOf rootWritten partsWritten) file
          = (readDocument (treeOf rootText partsText) file).map Value.unlabelled
      rw [read, written]
      exact ⟨fun document heq => by cases heq; exact finite, rfl⟩
  exact ⟨fun place document plain => (each place plain).1 document, fun place plain =>
    (each place plain).2⟩

/-- The references of both documents, and in the root document the redirected one. -/
def Stands (base : Path) (ref : Text) : Prop :=
  (base = root ∧ (ref = "a#/X" ∨ ref = "#/components/schemas/X")) ∨
    (base = file ∧ ref = "#/components/schemas/Y")

/-- These references lead to the schema with two properties and to the one for texts. -/
theorem source_of_stands {base : Path} {ref : Text} {target : Target} {source : Value}
    (h : Stands base ref) (means : meaning root base ref = .ok (.external target))
    (denotes : sourceAt? (treeOf rootText steadyText) {} target = some source) :
    target.file = file ∧
      (source = schemaOf (some 4) "#/components/schemas/Y" ∨ source = textSchema) := by
  have hread := (readDocument_steadyText rootText).1
  have hsource : ∀ pointer part, (steady (some 4)).partAt? pointer = some part →
      sourceAt? (treeOf rootText steadyText) {} ⟨file, pointer⟩ = some part :=
    fun pointer part hpart => (sourceAt?_eq_some_iff _ _ _ _).2 ⟨_, hread, hpart⟩
  have hX := hsource "/X" _ rfl
  have hY := hsource "/components/schemas/Y" _ rfl
  have hmeansX : meaning root root "a#/X" = .ok (.external ⟨file, "/X"⟩) := rfl
  have hmeansY : meaning root file "#/components/schemas/Y"
      = .ok (.external ⟨file, "/components/schemas/Y"⟩) := rfl
  rcases h with ⟨rfl, rfl | rfl⟩ | ⟨rfl, rfl⟩
  · rw [hmeansX] at means
    cases means
    exact ⟨rfl, Or.inl (Option.some.inj (denotes.symm.trans hX))⟩
  · cases means
  · rw [hmeansY] at means
    cases means
    exact ⟨rfl, Or.inr (Option.some.inj (denotes.symm.trans hY))⟩

/-- Only these references are met. -/
theorem stands_of_met {base : Path} {ref : Text}
    (h : Met (treeOf rootText steadyText) {} root (documentOf (some 8) "a#/X" []) base ref) :
    Stands base ref := by
  induction h with
  | inDocument mem =>
    have hrefs : (documentOf (some 8) "a#/X" []).refsMet root root
        = ["a#/X", "#/components/schemas/X"] := rfl
    rw [hrefs] at mem
    exact Or.inl ⟨rfl, by simpa using mem⟩
  | inSource _ means denotes mem ih =>
    obtain ⟨hfile, rfl | rfl⟩ := source_of_stands ih means denotes
    · have hrefs : (schemaOf (some 4) "#/components/schemas/Y").refsMet root file
          = ["#/components/schemas/Y", "#/components/schemas/Y"] := rfl
      rw [hfile, hrefs] at mem
      exact Or.inr ⟨hfile, by simpa using mem⟩
    · cases mem

/-- Where the reference leads to a component schema of its file, the repeated mappings say the same at
each place. -/
theorem copiesSettle_steady :
    CopiesSettle (treeOf rootText steadyText) {} root (documentOf (some 8) "a#/X" []) where
  inDocument := ⟨fun site hagain => Or.inl rfl, fun site hsite => nomatch hsite⟩
  inSource := by
    intro base ref target source met means denotes
    obtain ⟨hfile, rfl | rfl⟩ := source_of_stands (stands_of_met met) means denotes
    · refine ⟨?_, fun site hsite => nomatch hsite⟩
      intro site hagain
      have hsites : (schemaOf (some 4) "#/components/schemas/Y").sites
          = List.replicate 2 ⟨some 4, "#/components/schemas/Y"⟩ := rfl
      have hsite := hagain.mem
      rw [hsites] at hsite
      rw [hfile, List.eq_of_mem_replicate hsite]
      exact Or.inr rfl
    · refine ⟨?_, fun site hsite => nomatch hsite⟩
      intro site hagain
      cases hagain.mem
  inTables := by
    intro base ref target met means label components hcomponents
    have hfound : (documentOf (some 8) "a#/X" []).under? componentsKey
        = some (.table [(.text schemasKey, .table [(.text "A", refTo (some 8) "a#/X"),
          (.text "B", refTo (some 8) "a#/X")])]) := rfl
    rw [hfound] at hcomponents
    cases hcomponents
    refine ⟨rfl, fun label' schemas hschemas => ?_⟩
    cases hschemas
    rfl

/-- The files in which the repeated mappings are written out are loaded alike. -/
theorem load_writtenOut_steady :
    WritesOut (treeOf rootText steadyText) (treeOf rootWritten steadyWritten) ∧
      (∀ place document, resolveFile root = .ok place →
        readDocument (treeOf rootText steadyText) place = .ok document →
          CopiesSettle (treeOf rootText steadyText) {} place document) ∧
        (load (treeOf rootWritten steadyWritten) {} root).2.outcome
          = (load (treeOf rootText steadyText) {} root).2.outcome := by
  have written : WritesOut (treeOf rootText steadyText) (treeOf rootWritten steadyWritten) := by
    exact writesOut rfl (readDocument_steadyText rootText).1 (readDocument_steadyText rootWritten).2
  have settles : ∀ place document, resolveFile root = .ok place →
      readDocument (treeOf rootText steadyText) place = .ok document →
        CopiesSettle (treeOf rootText steadyText) {} place document := by
    intro place document hplace hread
    obtain rfl : root = place := Except.ok.inj hplace
    cases (readDocument_rootText steadyText).1.symm.trans hread
    exact copiesSettle_steady
  exact ⟨written, settles, load_writtenOut written settles⟩

/-- The target of the root document. -/
def targetX : Target := ⟨file, "/X"⟩

/-- The target in the other file. -/
def targetY : Target := ⟨file, "/Y"⟩

/-- What the reference in the other file reads as when it has been redirected. -/
def targetMoved : Target := ⟨file, "/components/schemas/Y"⟩

/-- What is gathered from the texts with aliases when the first target has been taken in. -/
def gatheringX : Gathering := ({} : Gathering).extend targetX (schemaOf (some 4) "#/Y")

/-- What is gathered from the texts that are written out. -/
def gathering : Gathering :=
  (({} : Gathering).extend targetX (schemaOf none "#/Y")).extend targetY textSchema

/-- The document that is loaded from the texts that are written out. -/
def loaded : Value :=
  documentOf none "#/components/schemas/X"
    [(.text "X", schemaOf none "#/components/schemas/Y"), (.text "Y", textSchema)]

/-- The texts that are written out are loaded without a fault. -/
theorem load_movedWritten :
    (load (treeOf rootWritten movedWritten) {} root).2.outcome = .ok loaded := by
  have hparts := (readDocument_movedText rootWritten).2
  have hsourceX : sourceAt? (treeOf rootWritten movedWritten) {} targetX
      = some (schemaOf none "#/Y") :=
    (sourceAt?_eq_some_iff _ _ _ _).2 ⟨_, hparts, rfl⟩
  have hsourceY : sourceAt? (treeOf rootWritten movedWritten) {} targetY = some textSchema :=
    (sourceAt?_eq_some_iff _ _ _ _).2 ⟨_, hparts, rfl⟩
  have hgather : (gatherFrom (treeOf rootWritten movedWritten) {} root
      (documentOf none "a#/X" [])).outcome = .ok gathering := by
    rw [gatherFrom_outcome_eq_ok_iff]
    refine .new rfl (by decide) hsourceX rfl (.new rfl (by decide) hsourceY rfl ?_)
    refine .close _ _ (.known rfl (by decide) (.close _ _ (.known rfl (by decide) (.done _))))
  have hinstall : (install root ((documentOf none "a#/X" []).relocated root root)
      gathering.schemas).toOption = some loaded := rfl
  rw [outcome_load_of_ok rfl (readDocument_rootText movedWritten).2 rfl, hgather]
  exact congrArg (Except.map Value.unlabelled) (eq_ok_of_toOption hinstall)

/-- **A repeated reference that is redirected.**  When the repeated reference is met again, it has been
redirected to a component schema, which its file does not have: the document is refused, while the one
that is written out is loaded. -/
theorem load_moved_ne_written :
    WritesOut (treeOf rootText movedText) (treeOf rootWritten movedWritten) ∧
      (load (treeOf rootText movedText) {} root).2.outcome
        = .error (.document (.unresolved "#/components/schemas/Y")) ∧
      (load (treeOf rootWritten movedWritten) {} root).2.outcome = .ok loaded := by
  refine ⟨writesOut rfl (readDocument_movedText rootText).1 (readDocument_movedText rootWritten).2,
    ?_, load_movedWritten⟩
  have hdocument : documentAt (treeOf rootText movedText) {} file = .ok (moved (some 4)) :=
    (readDocument_movedText rootText).1
  -- Both targets are taken in, and the redirected reference leads to a third one, which is missing.
  have htakenX : (documentAt (treeOf rootText movedText) {} targetX.file
        >>= ({} : Gathering).takeIn targetX "a#/X")
      = .ok (schemaOf (some 4) "#/Y", gatheringX) := by
    rw [show targetX.file = file from rfl, hdocument]
    rfl
  have htakenY : (documentAt (treeOf rootText movedText) {} targetY.file
        >>= gatheringX.takeIn targetY "#/Y")
      = .ok (textSchema, gatheringX.extend targetY textSchema) := by
    rw [show targetY.file = file from rfl, hdocument]
    rfl
  have hmissing : (documentAt (treeOf rootText movedText) {} targetMoved.file
        >>= (gatheringX.extend targetY textSchema).takeIn targetMoved "#/components/schemas/Y")
      = .error (.document (.unresolved "#/components/schemas/Y")) := by
    rw [show targetMoved.file = file from rfl, hdocument]
    rfl
  have hends : Ends (treeOf rootText movedText) {} root
      ⟨{}, [.follow root "a#/X", .follow root "#/components/schemas/X"]⟩
      (.error (.document (.unresolved "#/components/schemas/Y"))) := by
    refine .into (turn_of_taken rfl (by decide) htakenX) ?_
    show Ends _ _ _ ⟨_, .follow file "#/Y" :: .follow file "#/components/schemas/Y" :: _⟩ _
    refine .into (turn_of_taken rfl (by decide) htakenY) (.past rfl (.refused ?_))
    exact turn_of_refused rfl (by decide) hmissing
  have hstart : tasksFor root root (documentOf (some 8) "a#/X" [])
      = [.follow root "a#/X", .follow root "#/components/schemas/X"] := rfl
  rw [← hstart] at hends
  rw [outcome_load_of_ok rfl (readDocument_rootText movedText).1 rfl,
    (ends_gatherFrom _ _ _ _).unique hends]
  rfl

end AliasedReference
end SchemaCodecs
