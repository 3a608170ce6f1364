/-
# When bundling keeps the meaning of references

A reference that leads out of the root document is redirected to the component schema of its
target's name.  What stands there is the value that the target denotes, with its references read as
they are to be read in the file of the target, exactly when they read there as in the file of the
target of this name that was taken in last, or as they stand if the root document keeps a schema of
this name.

* `bundledReading` : how references are read under a name;
* `same_componentSchema_iff` : when that is how they are to be read.
-/
import SchemaCodecs.Proofs.Bundle.Installation
import SchemaCodecs.Proofs.Value.Equality
import SchemaCodecs.Proofs.Yaml.Reading

namespace SchemaCodecs

/-! ## Sources without repetitions -/

/-- The documents on a shelf have no repetitions. -/
def Shelf.Distinct (shelf : Shelf) : Prop :=
  ∀ entry ∈ shelf.documents, entry.2.Distinct

/-- What targets denote has no repetitions, since texts that are read have none. -/
theorem distinctSources_of_shelf (tree : FileTree) {shelf : Shelf} (h : shelf.Distinct) :
    DistinctSources tree shelf := by
  intro target source denotes
  obtain ⟨document, hdocument, part⟩ := (sourceAt?_eq_some_iff _ _ _ _).1 denotes
  have distinct : document.Distinct := by
    unfold documentAt at hdocument
    split at hdocument
    · next found =>
      cases hdocument
      exact h _ (mem_documents_of_find? found)
    · exact distinct_of_readDocument hdocument
  exact distinct.part part

/-- What a target in a file with a plain path denotes has no labels. -/
theorem aliasFree_of_sourceAt? {tree : FileTree} {shelf : Shelf} (files : AliasFreeFiles tree shelf)
    {target : Target} (plain : target.file.IsPlain) {source : Value}
    (denotes : sourceAt? tree shelf target = some source) : source.AliasFree := by
  obtain ⟨document, hdocument, part⟩ := (sourceAt?_eq_some_iff _ _ _ _).1 denotes
  exact (files _ _ plain hdocument).part part

/-! ## Reading references under a name -/

/-- How the references in an installed schema are read: as they stand if it is the one of the root
document, and otherwise in the file of its target. -/
def installedReading (root : Path) (own : Option Value) (schema : Bundled) : Text → Text :=
  if keepsOwn own schema.name then id else redirectRef root schema.target.file

/-- How the references are read in what bundling installs under a name. -/
def bundledReading (tree : FileTree) (shelf : Shelf) (root : Path) (document : Value)
    (name : Text) : Text → Text :=
  match (gatherFrom tree shelf root document).outcome with
  | .ok gathering =>
    ((gathering.find? name).map
      (installedReading root (componentSchema? (document.relocated root root) name))).getD id
  | .error _ => id

/-- A value with its references replaced is the same as what is installed for a schema with the same
source exactly when they are read in the same way. -/
theorem same_installed_iff {root : Path} {own : Option Value} {schema : Bundled} {source : Value}
    (distinct : source.Distinct) (plain : schema.source.AliasFree)
    (hown : ∀ v, own = some v → v.Distinct) (fits : Fits own schema)
    (hsame : source.same schema.source = true) (f : Text → Text) :
    (source.withRefs f).same (installed root own schema).unlabelled = true ↔
      Value.AgreeOn f (installedReading root own schema) source := by
  unfold installed installedReading
  cases hkeeps : keepsOwn own schema.name with
  | false =>
    rw [if_neg Bool.false_ne_true, if_neg Bool.false_ne_true, Bundled.body, Value.same_unlabelled,
      Value.same_unlabelled, Value.relocated_eq_withRefs _ _ plain]
    exact Value.same_withRefs_iff distinct hsame
  | true =>
    rw [if_pos rfl, if_pos rfl, Value.same_unlabelled]
    obtain ⟨v, rfl, hequal⟩ := fits hkeeps
    rw [Value.equals, Bool.and_eq_true] at hequal
    have hback : schema.source.same v = true := Value.same_symm (hown v rfl) hequal.1
    rw [Option.getD_some, ← Value.same_withRefs_iff distinct hsame, Value.withRefs_id]
    constructor
    · intro h
      exact Value.same_trans h hequal.1
    · intro h
      exact Value.same_trans h hback

/-! ## Bundled references -/

/-- A reference that is met and leads out of the root document is redirected to a component schema.
This is the same as the value that its target denotes, with the references in it redirected as they
read in the file of the target, exactly when bundling reads them so under the name of the target. -/
theorem same_componentSchema_iff {tree : FileTree} {shelf : Shelf} {root : Path}
    {document result : Value} (files : AliasFreeFiles tree shelf) (shelved : shelf.Distinct)
    (plain : document.AliasFree) (distinct : document.Distinct)
    (h : (bundle tree shelf root document).2.outcome = .ok result) {base : Path} {ref : Text}
    {target : Target} (met : Met tree shelf root document base ref)
    (means : meaning root base ref = .ok (.external target)) :
    redirectRef root base ref = Reference.toSchema target.name ∧
      ∃ source entry, sourceAt? tree shelf target = some source ∧
        componentSchema? result target.name = some entry ∧
          ((source.withRefs (redirectRef root target.file)).same entry = true ↔
            source.AgreeOn (redirectRef root target.file)
              (bundledReading tree shelf root document target.name)) := by
  have hredirect : redirectRef root base ref = Reference.toSchema target.name := by
    rw [redirectRef, means]
  refine ⟨hredirect, ?_⟩
  obtain ⟨gathering, hgather, hinstalled⟩ := componentSchema?_of_bundle h
  have hgathers := (gatherFrom_outcome_eq_ok_iff gathering).1 hgather
  have hsources := distinctSources_of_shelf tree shelved
  have consistent := hgathers.consistent hsources (consistent_empty tree shelf)
  -- The schema of the target's name stands at a target that denotes the same.
  obtain ⟨source, schema, denotes, hfind, hsame⟩ :=
    consistent.targets target (hgathers.mem_targets met means)
  obtain ⟨hmem, hname⟩ := Gathering.mem_of_find? hfind
  obtain ⟨htarget, -, hschema⟩ := consistent.schemas schema hmem
  have plainSource := aliasFree_of_sourceAt? files (consistent.plain _ htarget) hschema
  -- The root document has a schema without repetitions under this name, if it has any.
  let own := componentSchema? (document.relocated root root) target.name
  have hown : ∀ v, own = some v → v.Distinct := by
    intro v hv
    have hdistinct : (document.relocated root root).Distinct := by
      rw [Value.relocated_eq_withRefs root root plain]
      exact distinct.withRefs _
    exact hdistinct.componentSchema hv
  obtain ⟨hentry, fits⟩ := hinstalled schema hmem own (by rw [hname])
  rw [hname] at hentry
  have hreading : bundledReading tree shelf root document target.name
      = installedReading root own schema := by
    rw [bundledReading, hgather]
    show ((gathering.find? target.name).map (installedReading root own)).getD id = _
    rw [hfind, Option.map_some, Option.getD_some]
  refine ⟨source, (installed root own schema).unlabelled, denotes, hentry, ?_⟩
  rw [hreading]
  exact same_installed_iff (hsources _ _ denotes) plainSource hown fits hsame _

/-! ## Two files that read the same -/

namespace SharedName

/-- The root document. -/
def root : Path := { names := ["root.yaml"] }

/-- One of the other files. -/
def fileA : Path := { names := ["a.yaml"] }

/-- The other one of the other files. -/
def fileB : Path := { names := ["b.yaml"] }

/-- A mapping that only holds a reference. -/
def refTo (ref : Text) : Value := .table [(.text Reference.refKey, .text ref)]

/-- The text of the root document: its schemas refer to a part of each of the other files. -/
def rootText : Text :=
  "components:\n  schemas:\n    A:\n      $ref: a.yaml#/X\n    B:\n      $ref: b.yaml#/X\n"

/-- The root document with two references. -/
def documentOf (refA refB : Text) (added : Entries) : Value :=
  .table [(.text componentsKey, .table [(.text schemasKey,
    .table ([(.text "A", refTo refA), (.text "B", refTo refB)] ++ added))])]

/-- The root document. -/
def document : Value := documentOf "a.yaml#/X" "b.yaml#/X" []

/-- The text of both other files: the part that is referred to refers to the whole file. -/
def partText : Text := "X:\n  $ref: '#'\n"

/-- The document in both other files. -/
def part : Value := .table [(.text "X", refTo "#")]

/-- The three files. -/
def tree : FileTree :=
  ⟨[(root, .file (Text.asciiBytes rootText)), (fileA, .file (Text.asciiBytes partText)),
    (fileB, .file (Text.asciiBytes partText))]⟩

/-- What the nodes of the root file stand for. -/
def rootLabelled : Value :=
  .mapping (some 0) [(.text "components", .mapping (some 2) [(.text "schemas",
    .mapping (some 4) [(.text "A", .mapping (some 6) [(.text "$ref", .text "a.yaml#/X")]),
      (.text "B", .mapping (some 10) [(.text "$ref", .text "b.yaml#/X")])])])]

/-- What the nodes of the other files stand for. -/
def partLabelled : Value :=
  .mapping (some 0) [(.text "X", .mapping (some 2) [(.text "$ref", .text "#")])]

/-- What is read from the root file. -/
theorem readDocument_root : readDocument tree root = .ok document := by
  refine @readDocument_of_ascii tree root rootText _ rootLabelled (Text.toList_ofString_ofList _)
    rfl ?_ ?_ ?_
  · decide
  · decide +kernel
  · decide

/-- What is read from the other files. -/
theorem readDocument_part {file : Path} (hfile : file = fileA ∨ file = fileB) :
    readDocument tree file = .ok part := by
  rcases hfile with rfl | rfl
  · refine @readDocument_of_ascii tree _ partText _ partLabelled (Text.toList_ofString_ofList _)
      rfl ?_ ?_ ?_
    · decide
    · decide +kernel
    · decide
  · refine @readDocument_of_ascii tree _ partText _ partLabelled (Text.toList_ofString_ofList _)
      rfl ?_ ?_ ?_
    · decide
    · decide +kernel
    · decide

/-- No file has aliases. -/
theorem aliasFreeFiles : AliasFreeFiles tree {} := by
  refine aliasFreeFiles_of_entries ?_
  intro entry hentry other hother
  simp only [tree, List.mem_cons, List.not_mem_nil, or_false] at hentry
  rcases hentry with rfl | rfl | rfl
  · cases readDocument_root.symm.trans hother
    rfl
  · cases (readDocument_part (Or.inl rfl)).symm.trans hother
    rfl
  · cases (readDocument_part (Or.inr rfl)).symm.trans hother
    rfl

theorem aliasFree_document : document.AliasFree := rfl

theorem distinct_document : document.Distinct :=
  distinct_of_readDocument readDocument_root

/-- The part of a file that the root document refers to. -/
def partOf (file : Path) : Target := ⟨file, "/X"⟩

/-- A whole file. -/
def whole (file : Path) : Target := ⟨file, ""⟩

/-- What is gathered: of the two parts of the same name the last one. -/
def gathering : Gathering :=
  ((((({} : Gathering).extend (partOf fileA) (refTo "#")).extend (whole fileA) part).extend
    (partOf fileB) (refTo "#")).extend (whole fileB) part)

/-- The parts of the other files. -/
theorem sourceAt?_part {file : Path} (hfile : file = fileA ∨ file = fileB) :
    sourceAt? tree {} (partOf file) = some (refTo "#") ∧
      sourceAt? tree {} (whole file) = some part := by
  have hread := readDocument_part hfile
  have hpart : part.partAt? "/X" = some (refTo "#") := rfl
  exact ⟨(sourceAt?_eq_some_iff _ _ _ _).2 ⟨part, hread, hpart⟩,
    (sourceAt?_eq_some_iff _ _ _ _).2 ⟨part, hread, rfl⟩⟩

/-- The targets are taken in one after the other. -/
theorem gathers : Gathers tree {} root {} (tasksFor root root document) gathering := by
  obtain ⟨hpartA, hwholeA⟩ := sourceAt?_part (Or.inl rfl)
  obtain ⟨hpartB, hwholeB⟩ := sourceAt?_part (Or.inr rfl)
  refine .new rfl (by decide) hpartA rfl ?_
  refine .new rfl (by decide) hwholeA rfl ?_
  refine .known rfl (by decide) ?_
  refine .close _ _ (.close _ _ ?_)
  refine .new rfl (by decide) hpartB rfl ?_
  refine .new rfl (by decide) hwholeB rfl ?_
  refine .known rfl (by decide) ?_
  exact .close _ _ (.close _ _ (.done _))

/-- The bundled document: under `X` the reference leads to the second file. -/
def bundled : Value :=
  documentOf "#/components/schemas/X" "#/components/schemas/X"
    [(.text "X", refTo "#/components/schemas/b"),
      (.text "a", .table [(.text "X", refTo "#/components/schemas/a")]),
      (.text "b", .table [(.text "X", refTo "#/components/schemas/b")])]

/-- The root document is bundled without a fault. -/
theorem bundle_outcome : (bundle tree {} root document).2.outcome = .ok bundled := by
  rw [bundle_outcome_eq_ok_iff]
  have hinstall : (install root (document.relocated root root) gathering.schemas).toOption
      = some bundled := rfl
  have hbundled : bundled = bundled.unlabelled := rfl
  have hgather := (gatherFrom_outcome_eq_ok_iff gathering).2 gathers
  exact ⟨gathering, bundled, hgather, eq_ok_of_toOption hinstall, hbundled⟩

/-- The references of the root document are met. -/
theorem met_part {ref : Text} (href : ref = "a.yaml#/X" ∨ ref = "b.yaml#/X") :
    Met tree {} root document root ref := by
  refine .inDocument ?_
  rcases href with rfl | rfl
  · decide
  · decide

/-- The reference to the second file keeps its meaning as far as the general condition says. -/
theorem same_componentSchema_iff_fileB :
    redirectRef root root "b.yaml#/X" = Reference.toSchema (partOf fileB).name ∧
      ∃ source entry, sourceAt? tree {} (partOf fileB) = some source ∧
        componentSchema? bundled (partOf fileB).name = some entry ∧
          ((source.withRefs (redirectRef root fileB)).same entry = true ↔
            source.AgreeOn (redirectRef root fileB)
              (bundledReading tree {} root document (partOf fileB).name)) :=
  same_componentSchema_iff aliasFreeFiles (by simp [Shelf.Distinct]) aliasFree_document
    distinct_document bundle_outcome (met_part (Or.inr rfl)) rfl

/-- The reference to the first file leads to a schema that refers to the second file. -/
theorem componentSchema?_differs_fileA :
    AliasFreeFiles tree {} ∧ document.AliasFree ∧ document.Distinct ∧
      (bundle tree {} root document).2.outcome = .ok bundled ∧
        Met tree {} root document root "a.yaml#/X" ∧
          meaning root root "a.yaml#/X" = .ok (.external (partOf fileA)) ∧
            ∃ source entry, sourceAt? tree {} (partOf fileA) = some source ∧
              componentSchema? bundled (partOf fileA).name = some entry ∧
                (source.withRefs (redirectRef root fileA)).same entry = false := by
  refine ⟨aliasFreeFiles, rfl, distinct_document, bundle_outcome, met_part (Or.inl rfl), rfl, ?_⟩
  refine ⟨refTo "#", refTo "#/components/schemas/b", (sourceAt?_part (Or.inl rfl)).1, ?_, ?_⟩
  · decide +kernel
  · decide +kernel

end SharedName

end SchemaCodecs
