/-
# Siblings of references

What stands beside a reference in a schema does not count: the module of codecs made from a document is
the same without it.  It counts only where bundling compares whole values, to tell whether two parts of
the same name, or a part and a component schema of its name, are the same.  Two files that differ in a
sibling may be refused there while they are not without it.

* `generate_congr` : documents that read alike give the same module;
* `moduleFor_pruned` : deleting siblings changes nothing if those comparisons come out alike.
-/
import SchemaCodecs.CommandLine.Run
import SchemaCodecs.Proofs.Bundle.Deletion
import SchemaCodecs.Proofs.Compile.Stages
import SchemaCodecs.Proofs.FileTree.Contents
import SchemaCodecs.Proofs.Yaml.Reading

namespace SchemaCodecs

open Schema

/-! ## Documents that read alike -/

/-- Documents that read alike have the same classified schemas. -/
theorem components_congr {rename : Nat → Nat} {v w : Value} (h : ReadsAlike rename v w) :
    Schema.components w.unlabelled = Schema.components v.unlabelled := by
  have htables : InStep (fun table table' => ∀ parent,
      classifyProperties parent table' = classifyProperties parent table)
      (componentSchemas v.unlabelled) (componentSchemas w.unlabelled) := by
    rw [componentSchemas_unlabelled, componentSchemas_unlabelled]
    refine h.schemas.map fun table table' hmatch => classifyProperties_congr ?_
    rw [Value.unlabelledEntries_eq_map, Value.unlabelledEntries_eq_map]
    refine hmatch.map fun a _ b _ hpruned => ?_
    exact classifiesAlike (hpruned.unlabelled id) (Value.aliasFree_unlabelled _)
      (Value.aliasFree_unlabelled _)
  refine InStep.eq (htables.bind fun table table' _ _ halike => ?_)
  rw [halike]
  exact .refl _

/-- Documents that read alike give the same module, or fail with the same fault. -/
theorem generate_congr {rename : Nat → Nat} {v w : Value} (h : ReadsAlike rename v w)
    (config : Config) :
    (generate config w.unlabelled).outcome = (generate config v.unlabelled).outcome := by
  have haccepted : checkDocument v.unlabelled = .ok v.unlabelled := by
    rw [checkDocument_unlabelled, h.accepted]
    rfl
  have haccepted' : checkDocument w.unlabelled = .ok w.unlabelled := by
    rw [checkDocument_unlabelled, h.accepted']
    rfl
  simp only [generate, compile, Traced.outcome_bind, outcome_classifyDocument,
    haccepted, haccepted']
  show ((Schema.components w.unlabelled).bind _).bind _
    = ((Schema.components v.unlabelled).bind _).bind _
  rw [components_congr h]

/-! ## Modules -/

theorem outcome_moduleFor (tree : FileTree) (config : Config) (path : Path) :
    (CommandLine.moduleFor tree config path).outcome
      = (load tree {} path).2.outcome.bind fun document => (generate config document).outcome :=
  Traced.outcome_bind _ _

/-- **Siblings.**  If a document and its files have lost siblings of references, and bundling decides
alike wherever it compares whole values, then the same module is made, or the same fault is met. -/
theorem moduleFor_pruned {tree other : FileTree} {path : Path}
    (reads : ∀ file, file.IsPlain →
      InStep (LosesSiblings .ignored) (readDocument tree file) (readDocument other file))
    (deletes : ∀ file document document', resolveFile path = .ok file →
      readDocument tree file = .ok document → readDocument other file = .ok document' →
        DeletesSiblings tree other {} {} file document document' ∧
          ComparesAlike tree other {} {} file document document')
    (config : Config) :
    (CommandLine.moduleFor other config path).outcome
      = (CommandLine.moduleFor tree config path).outcome := by
  have hload : InStep (fun result result' => ∃ rename v w, result = v.unlabelled ∧
      result' = w.unlabelled ∧ ReadsAlike rename v w)
      (load tree {} path).2.outcome (load other {} path).2.outcome := by
    rw [outcome_load, outcome_load]
    refine (InStep.refl (resolveFile path)).bind ?_
    rintro _ file hfile - rfl
    refine (reads file (isPlain_of_resolveFile hfile)).bind ?_
    intro document document' hread hread' _
    obtain ⟨hdeletes, halike⟩ := deletes file document document' hfile hread hread'
    obtain ⟨rename, -, hpruned⟩ := hdeletes.inDocument
    refine (checkDocument_inStep hpruned).bind ?_
    rintro _ _ haccepted haccepted' ⟨rfl, rfl⟩
    exact bundle_inStep hdeletes halike haccepted haccepted'
  rw [outcome_moduleFor, outcome_moduleFor]
  refine InStep.eq (hload.bind ?_)
  rintro _ _ - - ⟨rename, v, w, rfl, rfl, hreads⟩
  rw [generate_congr hreads]
  exact .refl _

/-! ## A reference with a sibling -/

namespace SiblingReference

/-- The root document. -/
def root : Path := { names := ["root"] }

/-- The file that the root document refers to. -/
def file : Path := { names := ["a"] }

/-- The text of a root document: the schema is named like the part that it refers to. -/
def namesakeText : Text :=
  "openapi: 1\ncomponents:\n schemas:\n  Pet:\n   $ref: a#/Pet\n   description: x\n"

/-- The same text without the sibling of the reference. -/
def namesakeAlone : Text := "openapi: 1\ncomponents:\n schemas:\n  Pet:\n   $ref: a#/Pet\n"

/-- The text of a root document: the schema has another name than the part. -/
def strangerText : Text :=
  "openapi: 1\ncomponents:\n schemas:\n  A:\n   $ref: a#/Pet\n   description: x\n"

/-- The same text without the sibling of the reference. -/
def strangerAlone : Text := "openapi: 1\ncomponents:\n schemas:\n  A:\n   $ref: a#/Pet\n"

/-- The text of the other file. -/
def partsText : Text := "Pet:\n type: string\n"

/-- The two files, without content. -/
def places : FileTree := ⟨[(root, .file []), (file, .file [])]⟩

/-- The two files, given the text of the root document. -/
def treeOf (rootText : Text) : FileTree :=
  places.withContents fun place => Text.asciiBytes (if place = root then rootText else partsText)

/-- The reference with its sibling. -/
def refBeside : Value := .table [(.text Reference.refKey, .text "a#/Pet"),
  (.text "description", .text "x")]

/-- The reference alone. -/
def refAlone : Value := .table [(.text Reference.refKey, .text "a#/Pet")]

/-- A root document with some schemas. -/
def documentOf (schemas : Entries) : Value :=
  .table [(.text "openapi", .int 1), (.text componentsKey, .table [(.text schemasKey,
    .table schemas)])]

/-- A schema for texts. -/
def textSchema : Value := .table [(.text "type", .text "string")]

/-- The document in the other file. -/
def parts : Value := .table [(.text "Pet", textSchema)]

/-- What the nodes of a root file stand for, given the entries of its schema. -/
def rootLabelled (name : Text) (entries : Entries) : Value :=
  .mapping (some 0) [(.text "openapi", .int 1), (.text "components", .mapping (some 4) [
    (.text "schemas", .mapping (some 6) [(.text name, .mapping (some 8) entries)])])]

/-- What the nodes of the other file stand for. -/
def partsLabelled : Value :=
  .mapping (some 0) [(.text "Pet", .mapping (some 2) [(.text "type", .text "string")])]

/-- What is read from the other file. -/
theorem readDocument_parts (rootText : Text) :
    readDocument (treeOf rootText) file = .ok parts := by
  refine @readDocument_of_ascii (treeOf rootText) file partsText _ partsLabelled
    (Text.toList_ofString_ofList _) rfl ?_ ?_ ?_
  · decide
  · decide +kernel
  · decide

/-- What is read from the root file if the schema is named like the part. -/
theorem readDocument_namesake :
    readDocument (treeOf namesakeText) root = .ok (documentOf [(.text "Pet", refBeside)]) ∧
      readDocument (treeOf namesakeAlone) root = .ok (documentOf [(.text "Pet", refAlone)]) := by
  constructor
  · refine @readDocument_of_ascii (treeOf namesakeText) root namesakeText _
      (rootLabelled "Pet" [(.text "$ref", .text "a#/Pet"), (.text "description", .text "x")])
      (Text.toList_ofString_ofList _) rfl ?_ ?_ ?_
    · decide
    · decide +kernel
    · decide
  · refine @readDocument_of_ascii (treeOf namesakeAlone) root namesakeAlone _
      (rootLabelled "Pet" [(.text "$ref", .text "a#/Pet")]) (Text.toList_ofString_ofList _) rfl ?_ ?_ ?_
    · decide
    · decide +kernel
    · decide

/-- What is read from the root file if the schema has another name. -/
theorem readDocument_stranger :
    readDocument (treeOf strangerText) root = .ok (documentOf [(.text "A", refBeside)]) ∧
      readDocument (treeOf strangerAlone) root = .ok (documentOf [(.text "A", refAlone)]) := by
  constructor
  · refine @readDocument_of_ascii (treeOf strangerText) root strangerText _
      (rootLabelled "A" [(.text "$ref", .text "a#/Pet"), (.text "description", .text "x")])
      (Text.toList_ofString_ofList _) rfl ?_ ?_ ?_
    · decide
    · decide +kernel
    · decide
  · refine @readDocument_of_ascii (treeOf strangerAlone) root strangerAlone _
      (rootLabelled "A" [(.text "$ref", .text "a#/Pet")]) (Text.toList_ofString_ofList _) rfl ?_ ?_ ?_
    · decide
    · decide +kernel
    · decide

/-- The root document loses the sibling of the reference. -/
theorem pruned_documentOf (name : Scalar) :
    Pruned id .document (documentOf [(name, refBeside)]) (documentOf [(name, refAlone)]) := by
  have hschema : Pruned id .schema refBeside refAlone := by
    show Pruned id .schema (.mapping none _) (.mapping ((none : Option Nat).map id) _)
    exact .reference (Or.inl rfl) rfl (by decide)
  refine .of_entriesMatch (fun _ _ => rfl) (.cons ⟨rfl, .scalar _ _⟩ (.cons ⟨rfl, ?_⟩ .nil))
  refine .of_entriesMatch (fun _ _ => rfl) (.cons ⟨rfl, ?_⟩ .nil)
  exact .of_entriesMatch (fun _ _ => rfl) (.cons ⟨rfl, hschema⟩ .nil)

/-- The part that the root document refers to. -/
def target : Target := ⟨file, "/Pet"⟩

theorem meaning_target : meaning root root "a#/Pet" = .ok (.external target) := rfl

theorem sourceAt?_target (rootText : Text) :
    sourceAt? (treeOf rootText) {} target = some textSchema :=
  (sourceAt?_eq_some_iff _ _ _ _).2 ⟨parts, readDocument_parts rootText, rfl⟩

section Reached

variable {rootText otherText : Text} {document document' : Value} {base : Path} {ref : Text}
  {reached : Target} {source source' : Value}

/-- Only the reference to the part is met. -/
theorem eq_of_met (alone : document.refsMet root root = (["a#/Pet"] : List Text))
    (h : Met (treeOf rootText) {} root document base ref) : base = root ∧ ref = "a#/Pet" := by
  induction h with
  | inDocument mem =>
    rw [alone] at mem
    exact ⟨rfl, List.mem_singleton.1 mem⟩
  | inSource _ means denotes mem ih =>
    obtain ⟨rfl, rfl⟩ := ih
    rw [meaning_target] at means
    cases means
    cases denotes.symm.trans (sourceAt?_target rootText)
    cases mem

/-- Only the part is reached. -/
theorem eq_of_denotes (alone : document.refsMet root root = (["a#/Pet"] : List Text))
    (h : Denotes (treeOf rootText) (treeOf otherText) {} {} root document reached source source') :
    reached = target ∧ source = textSchema ∧ source' = textSchema := by
  obtain ⟨⟨base, ref, met, means⟩, before, after⟩ := h
  obtain ⟨rfl, rfl⟩ := eq_of_met alone met
  rw [meaning_target] at means
  cases means
  exact ⟨rfl, Option.some.inj (before.symm.trans (sourceAt?_target rootText)),
    Option.some.inj (after.symm.trans (sourceAt?_target otherText))⟩

/-- Each document has lost siblings if the root document has. -/
theorem inStep_readDocument (before : readDocument (treeOf rootText) root = .ok document)
    (after : readDocument (treeOf otherText) root = .ok document')
    (h : Pruned id .document document document') (place : Path) (plain : place.IsPlain) :
    InStep (LosesSiblings .ignored) (readDocument (treeOf rootText) place)
      (readDocument (treeOf otherText) place) := by
  refine FileTree.forall_readDocument_withContents (R := InStep (LosesSiblings .ignored))
    (fun fault => .error fault) ?_ plain
  intro entry hentry
  simp only [places, List.mem_cons, List.not_mem_nil, or_false] at hentry
  rcases hentry with rfl | rfl
  · show InStep _ (readDocument (treeOf rootText) root) (readDocument (treeOf otherText) root)
    rw [before, after]
    exact .ok ⟨id, Function.injective_id, h.ignored⟩
  · show InStep _ (readDocument (treeOf rootText) file) (readDocument (treeOf otherText) file)
    rw [readDocument_parts, readDocument_parts]
    exact .ok ⟨id, Function.injective_id, .refl _ _⟩

/-- Only the root document has lost siblings, and the part that it refers to none. -/
theorem deletesSiblings (alone : document.refsMet root root = (["a#/Pet"] : List Text))
    (before : readDocument (treeOf rootText) root = .ok document)
    (after : readDocument (treeOf otherText) root = .ok document')
    (h : Pruned id .document document document') :
    DeletesSiblings (treeOf rootText) (treeOf otherText) {} {} root document document' where
  inFiles := inStep_readDocument before after h
  inDocument := ⟨id, Function.injective_id, h⟩
  inSources := by
    intro reached source source' hdenotes
    obtain ⟨-, rfl, rfl⟩ := eq_of_denotes alone hdenotes
    exact ⟨id, Function.injective_id, .refl _ _⟩

/-- Without a component schema of its name the part is compared to nothing. -/
theorem comparesAlike (alone : document.refsMet root root = (["a#/Pet"] : List Text))
    (absent : componentSchema? (document.relocated root root) target.name = none) :
    ComparesAlike (treeOf rootText) (treeOf otherText) {} {} root document document' := by
  refine comparesAlike_of_apart ?_ ?_ ?_
  · intro base ref reached source met means _
    obtain ⟨rfl, rfl⟩ := eq_of_met alone met
    rw [meaning_target] at means
    cases means
    exact ⟨textSchema, sourceAt?_target otherText⟩
  · intro first second _ _ _ _ hfirst hsecond _
    rw [(eq_of_denotes alone hfirst).1, (eq_of_denotes alone hsecond).1]
  · intro reached source source' hdenotes
    rw [(eq_of_denotes alone hdenotes).1, absent]

end Reached

/-- The sibling is not noticed beside a reference to a part with another name. -/
theorem moduleFor_pruned_stranger :
    (∀ place, place.IsPlain → InStep (LosesSiblings .ignored)
        (readDocument (treeOf strangerText) place) (readDocument (treeOf strangerAlone) place)) ∧
      (∀ place document document', resolveFile root = .ok place →
        readDocument (treeOf strangerText) place = .ok document →
          readDocument (treeOf strangerAlone) place = .ok document' →
            DeletesSiblings (treeOf strangerText) (treeOf strangerAlone) {} {} place document
                document' ∧
              ComparesAlike (treeOf strangerText) (treeOf strangerAlone) {} {} place document
                document') ∧
        (CommandLine.moduleFor (treeOf strangerAlone) {} root).outcome
          = (CommandLine.moduleFor (treeOf strangerText) {} root).outcome := by
  have reads := inStep_readDocument readDocument_stranger.1 readDocument_stranger.2
    (pruned_documentOf (.text "A"))
  have deletes : ∀ place document document', resolveFile root = .ok place →
      readDocument (treeOf strangerText) place = .ok document →
        readDocument (treeOf strangerAlone) place = .ok document' →
          DeletesSiblings (treeOf strangerText) (treeOf strangerAlone) {} {} place document
              document' ∧
            ComparesAlike (treeOf strangerText) (treeOf strangerAlone) {} {} place document
              document' := by
    intro place document document' hplace hread hread'
    obtain rfl : root = place := Except.ok.inj hplace
    cases readDocument_stranger.1.symm.trans hread
    cases readDocument_stranger.2.symm.trans hread'
    exact ⟨deletesSiblings rfl readDocument_stranger.1 readDocument_stranger.2
      (pruned_documentOf (.text "A")), comparesAlike rfl rfl⟩
  exact ⟨reads, deletes, moduleFor_pruned reads deletes {}⟩

/-- What is gathered from the document. -/
def gathering : Gathering := ({} : Gathering).extend target textSchema

/-- The part is gathered. -/
theorem gatherFrom_eq {rootText : Text} {document : Value}
    (alone : tasksFor root root document = [.follow root "a#/Pet"]) :
    (gatherFrom (treeOf rootText) {} root document).outcome = .ok gathering := by
  rw [gatherFrom_outcome_eq_ok_iff, alone]
  exact .new rfl (by decide) (sourceAt?_target rootText) rfl (.close _ _ (.done _))

/-- The module that is made without the sibling. -/
def moduleText : Text :=
  "/* eslint-disable */\nimport * as t from 'io-ts'\n\nexport const Pet = t.string\n\n" ++
    "export type Pet = t.TypeOf<typeof Pet>\n\n"

/-- The declaration of the part. -/
def pet : Declaration := ⟨.text "Pet", .primitive "string", .bool true⟩

/-- The document in which the part has replaced the reference is compiled. -/
theorem compile_textSchema : (compile {} (documentOf [(.text "Pet", textSchema)])).outcome
    = .ok { declarations := [pet], diagnostics := [], cycles := [] } := by
  refine compile_outcome_eq_ok_iff.2 ⟨⟨{
    components := [⟨.text "Pet", .string "#/components/schemas/Pet" none⟩]
    declarations := [pet]
    sorted := ⟨[pet], [], []⟩
    checked := rfl
    classified := by cbv
    built := by cbv
    sort_eq := by cbv
    result_eq := by cbv }⟩, ?_⟩
  intro hstrict
  cases hstrict

theorem printModule_pet : (Codec.printModule {} [pet]).toOption = some moduleText := by
  decide +kernel

/-- **A sibling of a reference to itself.**  The component schema is replaced by the part of its name
if it is only a reference to the part; with a sibling it is refused. -/
theorem namesake_noticed :
    (∀ place, place.IsPlain → InStep (LosesSiblings .ignored)
        (readDocument (treeOf namesakeText) place) (readDocument (treeOf namesakeAlone) place)) ∧
      DeletesSiblings (treeOf namesakeText) (treeOf namesakeAlone) {} {} root
        (documentOf [(.text "Pet", refBeside)]) (documentOf [(.text "Pet", refAlone)]) ∧
        (CommandLine.moduleFor (treeOf namesakeText) {} root).outcome
          = .error (.document (.clashing "Pet")) ∧
        (CommandLine.moduleFor (treeOf namesakeAlone) {} root).outcome = .ok moduleText := by
  have hbefore := readDocument_namesake.1
  have hafter := readDocument_namesake.2
  have hpruned := pruned_documentOf (.text "Pet")
  refine ⟨inStep_readDocument hbefore hafter hpruned, deletesSiblings rfl hbefore hafter hpruned,
    ?_, ?_⟩
  · have hload : (load (treeOf namesakeText) {} root).2.outcome
        = .error (.document (.clashing "Pet")) := by
      rw [outcome_load_of_ok rfl hbefore rfl, gatherFrom_eq rfl]
      rfl
    rw [outcome_moduleFor, hload]
    rfl
  · have hinstall : (install root ((documentOf [(.text "Pet", refAlone)]).relocated root root)
        gathering.schemas).toOption = some (documentOf [(.text "Pet", textSchema)]) := rfl
    have hload : (load (treeOf namesakeAlone) {} root).2.outcome
        = .ok (documentOf [(.text "Pet", textSchema)]) := by
      rw [outcome_load_of_ok rfl hafter rfl, gatherFrom_eq rfl]
      exact congrArg (Except.map Value.unlabelled) (eq_ok_of_toOption hinstall)
    rw [outcome_moduleFor, hload]
    show (generate {} (documentOf [(.text "Pet", textSchema)])).outcome = .ok moduleText
    rw [generate, Traced.outcome_bind_of_ok compile_textSchema]
    exact eq_ok_of_toOption printModule_pet

end SiblingReference

end SchemaCodecs
