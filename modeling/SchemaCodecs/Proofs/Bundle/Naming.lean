/-
# When a bundled reference means its schema

A reference that leads out of the root document is redirected to a component schema.  The name that
the redirected reference means is the one under which the schema stands exactly if this name has no
slash and no escape in it.
-/
import SchemaCodecs.Proofs.Bundle.Faithfulness
import SchemaCodecs.Proofs.Reference.Decoding

namespace SchemaCodecs

/-! ## Redirected references -/

/-- A reference to a target that is taken in is redirected to a component schema of the bundled
document.  The redirected reference means the name of this schema exactly if the name is plain. -/
theorem declarationName_redirectRef_iff {tree : FileTree} {shelf : Shelf} {root : Path}
    {document result : Value} {gathering : Gathering}
    (h : (bundle tree shelf root document).2.outcome = .ok result)
    (gathered : (gatherFrom tree shelf root document).outcome = .ok gathering) {base : Path}
    {ref : Text} {target : Target} (means : meaning root base ref = .ok (.external target))
    (taken : target ∈ gathering.targets) :
    (∃ entry, componentSchema? result target.name = some entry) ∧
      (Reference.declarationName (redirectRef root base ref) = target.name ↔
        Reference.IsPlainName target.name) := by
  constructor
  · have hname := (registered_of_gatherFrom gathered).targets target taken
    obtain ⟨schema, hschema, hname⟩ := List.mem_map.1 hname
    obtain ⟨gathering', gathered', hinstalled⟩ := componentSchema?_of_bundle h
    cases gathered.symm.trans gathered'
    rw [← hname]
    exact ⟨_, (hinstalled schema hschema _ rfl).1⟩
  · have hredirect : redirectRef root base ref = Reference.toSchema target.name := by
      rw [redirectRef, means]
    rw [hredirect]
    exact Reference.declarationName_toSchema_iff target.name

/-! ## A name with a slash -/

namespace SlashedName

open SharedName (root refTo documentOf)

/-- The file that the root document refers to. -/
def file : Path := { names := ["a.yaml"] }

/-- The text of the root document. -/
def rootText : Text :=
  "components:\n  schemas:\n    A:\n      $ref: a.yaml#/x~1y\n    B:\n      $ref: a.yaml#/z\n"

/-- The root document. -/
def document : Value := documentOf "a.yaml#/x~1y" "a.yaml#/z" []

/-- The text of the other file, with two schemas of which one has a slash in its name. -/
def partsText : Text := "x/y:\n  type: string\nz:\n  type: string\n"

/-- A schema for texts. -/
def textSchema : Value := .table [(.text "type", .text "string")]

/-- The document in the other file. -/
def parts : Value := .table [(.text "x/y", textSchema), (.text "z", textSchema)]

/-- The two files. -/
def tree : FileTree :=
  ⟨[(root, .file (Text.asciiBytes rootText)), (file, .file (Text.asciiBytes partsText))]⟩

/-- What the nodes of the other file stand for. -/
def partsLabelled : Value :=
  .mapping (some 0) [
    (.text "x/y", .mapping (some 2) [(.text "type", .text "string")]),
    (.text "z", .mapping (some 6) [(.text "type", .text "string")])]

/-- What is read from the other file. -/
theorem readDocument_file : readDocument tree file = .ok parts := by
  refine @readDocument_of_ascii tree file partsText _ partsLabelled (Text.toList_ofString_ofList _)
    rfl ?_ ?_ ?_
  · decide
  · decide +kernel
  · decide

/-- The schema with a slash in its name. -/
def slashed : Target := ⟨file, "/x~1y"⟩

/-- The schema with a plain name. -/
def plain : Target := ⟨file, "/z"⟩

/-- What is gathered: both schemas. -/
def gathering : Gathering :=
  (({} : Gathering).extend slashed textSchema).extend plain textSchema

/-- Both targets are taken in. -/
theorem gatherFrom_outcome : (gatherFrom tree {} root document).outcome = .ok gathering := by
  have hslashed : sourceAt? tree {} slashed = some textSchema := by
    exact (sourceAt?_eq_some_iff _ _ _ _).2 ⟨parts, readDocument_file, rfl⟩
  have hplain : sourceAt? tree {} plain = some textSchema := by
    exact (sourceAt?_eq_some_iff _ _ _ _).2 ⟨parts, readDocument_file, rfl⟩
  rw [gatherFrom_outcome_eq_ok_iff]
  refine .new rfl (by decide) hslashed rfl (.close _ _ ?_)
  exact .new rfl (by decide) hplain rfl (.close _ _ (.done _))

/-- The bundled document. -/
def bundled : Value :=
  documentOf "#/components/schemas/x/y" "#/components/schemas/z"
    [(.text "x/y", textSchema), (.text "z", textSchema)]

/-- The root document is bundled without a fault. -/
theorem bundle_outcome : (bundle tree {} root document).2.outcome = .ok bundled := by
  rw [bundle_outcome_eq_ok_iff]
  have hinstall : (install root (document.relocated root root) gathering.schemas).toOption
      = some bundled := rfl
  have hbundled : bundled = bundled.unlabelled := rfl
  exact ⟨gathering, bundled, gatherFrom_outcome, eq_ok_of_toOption hinstall, hbundled⟩

/-- The general condition for the schema with a plain name. -/
theorem declarationName_redirectRef_plain :
    (∃ entry, componentSchema? bundled plain.name = some entry) ∧
      (Reference.declarationName (redirectRef root root "a.yaml#/z") = plain.name ↔
        Reference.IsPlainName plain.name) :=
  declarationName_redirectRef_iff bundle_outcome gatherFrom_outcome rfl (by decide)

/-- The reference to the schema with a slash in its name means another name. -/
theorem declarationName_redirectRef_slashed :
    (bundle tree {} root document).2.outcome = .ok bundled ∧
      (gatherFrom tree {} root document).outcome = .ok gathering ∧
        meaning root root "a.yaml#/x~1y" = .ok (.external slashed) ∧
          slashed ∈ gathering.targets ∧
            componentSchema? bundled slashed.name = some textSchema ∧
              slashed.name = "x/y" ∧
                Reference.declarationName (redirectRef root root "a.yaml#/x~1y") = "y" := by
  refine ⟨bundle_outcome, gatherFrom_outcome, rfl, by decide, ?_, ?_, ?_⟩
  · decide +kernel
  · decide +kernel
  · decide +kernel

end SlashedName

end SchemaCodecs
