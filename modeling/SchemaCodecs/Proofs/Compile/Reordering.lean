/-
# Schemas in another order

What a document is compiled to does not depend on the order of its component schemas, except for the
order of what is listed: the same declarations are given, with the same codecs, and the same problems
are reported.  The cycles are even listed in the same order.

* `Codec.printModule_perm` : modules of declarations in another order;
* `SameUpToOrder` : what two compilations have in common;
* `compile_perm` : documents with their schemas in another order are compiled to the same.
-/
import SchemaCodecs.Proofs.Codec.Dangling
import SchemaCodecs.Proofs.Compile.Containment
import SchemaCodecs.Proofs.Order.Groups

namespace SchemaCodecs

/-! ## Modules in another order -/

namespace Codec

/-- Two styles print every identifier alike, and integers too. -/
structure Style.PrintsAlike (style other : Style) : Prop where
  /-- The codec of integers is the same. -/
  integerCodec_eq : style.integerCodec = other.integerCodec
  /-- Identifiers are printed alike. -/
  identifier_eq : ∀ name, style.identifier name = other.identifier name

/-- The names that are declared count, not their order. -/
theorem printsAlike_of_mem_iff (config : Config) {known others : List Text}
    (h : ∀ name, name ∈ known ↔ name ∈ others) :
    (Style.ofConfig config (some known)).PrintsAlike (.ofConfig config (some others)) where
  integerCodec_eq := rfl
  identifier_eq name := by
    have hcontains : known.contains name = others.contains name := by
      rw [Bool.eq_iff_iff, List.contains_iff_mem, List.contains_iff_mem]
      exact h name
    exact congrArg (fun declared : Bool =>
      if !declared && config.danglingPolicy == .unknown then ("t.unknown" : Text) else name) hcontains

section Alike

variable {style other : Style}

theorem Style.PrintsAlike.primitive_eq (h : style.PrintsAlike other) (kind : Text) :
    style.primitive kind = other.primitive kind := by
  rw [Style.primitive, Style.primitive, h.integerCodec_eq]

theorem Style.PrintsAlike.join_eq (h : style.PrintsAlike other) (combinator : Text)
    (members : List TypeExpr) (codecs : List Text) :
    style.join combinator members codecs = other.join combinator members codecs := by
  rw [Style.join, Style.join, h.integerCodec_eq]

mutual

/-- Types are printed alike. -/
theorem print_congr (h : style.PrintsAlike other) (level : Nat) :
    ∀ t : TypeExpr, print style level t = print other level t
  | .primitive kind => h.primitive_eq kind
  | .identifier name => congrArg Except.ok (h.identifier_eq name)
  | .array items => by
    rw [print, print, print_congr h level items]
  | .record fields => by
    rw [print, print, printFields_congr h level false fields, printFields_congr h level true fields]
  | .union [] => rfl
  | .union [member] => by
    rw [print, print, print_congr h level member]
  | .union (first :: second :: rest) => by
    simp only [print, printMembers_congr h level (first :: second :: rest), h.join_eq]
  | .intersection [] => rfl
  | .intersection [member] => by
    rw [print, print, print_congr h level member]
  | .intersection (first :: second :: rest) => by
    simp only [print, printMembers_congr h level (first :: second :: rest), h.join_eq]
  | .missing | .bare | .keyof _ => rfl

/-- Properties are printed alike. -/
theorem printFields_congr (h : style.PrintsAlike other) (level : Nat) (optional : Bool) :
    ∀ fields : List (Field TypeExpr),
      printFields style level optional fields = printFields other level optional fields
  | [] => rfl
  | ⟨name, type, own⟩ :: rest => by
    rw [printFields, printFields, print_congr h (level + 1) type,
      printFields_congr h level optional rest]

theorem printMembers_congr (h : style.PrintsAlike other) (level : Nat) :
    ∀ members : List TypeExpr, printMembers style level members = printMembers other level members
  | [] => rfl
  | member :: rest => by
    rw [printMembers, printMembers, print_congr h level member, printMembers_congr h level rest]

end

end Alike

/-- The codec of a declaration in the module of some declarations. -/
def codecIn (config : Config) (declarations : List Declaration) (d : Declaration) :
    Except Fault Text :=
  print (Style.ofConfig config (some (declaredNames declarations))) 0 d.type

/-- In the module of the declarations in another order the codec is the same. -/
theorem codecIn_eq_of_perm (config : Config) {declarations others : List Declaration}
    (h : declarations.Perm others) : codecIn config declarations = codecIn config others := by
  funext d
  have halike := printsAlike_of_mem_iff config fun name =>
    (h.filterMap fun d : Declaration => d.name.text?).mem_iff (a := name)
  exact print_congr halike 0 d.type

/-- The module of some declarations, each with its codec. -/
def moduleOf (config : Config) (parts : List (Declaration × Text)) : Text :=
  head config.addGenerationComment.isTruthy ++
    Text.join (parts.map fun part => codecLine part.1 part.2) ++
      Text.join (parts.map fun part => typeLine part.1)

/-- Some declarations, each with its codec in the module. -/
def ArePartsOf (config : Config) (declarations : List Declaration)
    (parts : List (Declaration × Text)) : Prop :=
  parts.map (·.1) = declarations ∧ ∀ part ∈ parts, codecIn config declarations part.1 = .ok part.2

/-- The declarations of codecs are found if the codecs are. -/
theorem codecLines_eq_ok_iff {style : Style} {declarations : List Declaration}
    {lines : List Text} : codecLines style declarations = .ok lines ↔
      ∃ parts : List (Declaration × Text), parts.map (·.1) = declarations ∧
        (∀ part ∈ parts, print style 0 part.1.type = .ok part.2) ∧
          lines = parts.map fun part => codecLine part.1 part.2 := by
  induction declarations generalizing lines with
  | nil =>
    rw [codecLines, Except.ok.injEq]
    constructor
    · rintro rfl
      exact ⟨[], rfl, by simp, rfl⟩
    · rintro ⟨parts, hparts, -, rfl⟩
      rw [List.map_eq_nil_iff.1 hparts]
      rfl
  | cons d rest ih =>
    simp only [codecLines, bind_eq_ok_iff]
    constructor
    · rintro ⟨codec, hcodec, others, hothers, hlines⟩
      obtain ⟨parts, rfl, hparts, rfl⟩ := ih.1 hothers
      cases hlines
      exact ⟨(d, codec) :: parts, rfl, List.forall_mem_cons.2 ⟨hcodec, hparts⟩, rfl⟩
    · rintro ⟨parts, hmap, hparts, rfl⟩
      obtain ⟨part, others, rfl, rfl, rfl⟩ := List.map_eq_cons_iff.1 hmap
      obtain ⟨hpart, hothers⟩ := List.forall_mem_cons.1 hparts
      exact ⟨part.2, hpart, _, ih.2 ⟨others, rfl, hothers, rfl⟩, rfl⟩

/-- A module is printed if the codec of each declaration is, and it consists of these. -/
theorem printModule_eq_ok_iff {config : Config} {declarations : List Declaration} {text : Text} :
    printModule config declarations = .ok text ↔
      ∃ parts, ArePartsOf config declarations parts ∧ text = moduleOf config parts := by
  simp only [printModule, bind_eq_ok_iff, codecLines_eq_ok_iff]
  constructor
  · rintro ⟨lines, ⟨parts, hmap, hparts, rfl⟩, htext⟩
    cases htext
    refine ⟨parts, ⟨hmap, hparts⟩, ?_⟩
    rw [moduleOf, ← hmap, List.map_map]
    rfl
  · rintro ⟨parts, ⟨hmap, hparts⟩, rfl⟩
    refine ⟨_, ⟨parts, hmap, hparts, rfl⟩, ?_⟩
    rw [moduleOf, ← hmap, List.map_map]
    rfl

/-- Parts can be put in the order of the declarations. -/
theorem exists_perm_of_map_perm {parts : List (Declaration × Text)} {others : List Declaration}
    (h : (parts.map (·.1)).Perm others) :
    ∃ parts' : List (Declaration × Text), parts'.map (·.1) = others ∧ parts.Perm parts' := by
  have hparts : List.Forall₂ (fun d (part : Declaration × Text) => d = part.1)
      (parts.map (·.1)) parts :=
    List.forall₂_map_left_iff.2 (List.forall₂_same.2 fun _ _ => rfl)
  obtain ⟨parts', hparts', hperm⟩ := List.perm_comp_forall₂ h.symm hparts
  refine ⟨parts', ?_, hperm.symm⟩
  rw [← List.forall₂_eq_eq_eq, List.forall₂_map_left_iff]
  exact hparts'.flip.imp fun _ _ heq => heq.symm

/-- **Modules in another order.**  The module of declarations in another order consists of the same
parts in this order. -/
theorem printModule_perm {config : Config} {declarations others : List Declaration}
    (h : declarations.Perm others) {text : Text}
    (htext : printModule config declarations = .ok text) :
    ∃ parts parts', ArePartsOf config declarations parts ∧ text = moduleOf config parts ∧
      parts.Perm parts' ∧ ArePartsOf config others parts' ∧
        printModule config others = .ok (moduleOf config parts') := by
  obtain ⟨parts, hparts, rfl⟩ := printModule_eq_ok_iff.1 htext
  obtain ⟨parts', hmap, hperm⟩ := exists_perm_of_map_perm (hparts.1 ▸ h)
  have hparts' : ArePartsOf config others parts' := by
    refine ⟨hmap, fun part hpart => ?_⟩
    rw [← codecIn_eq_of_perm config h]
    exact hparts.2 part (hperm.mem_iff.2 hpart)
  exact ⟨parts, parts', hparts, rfl, hperm, hparts', printModule_eq_ok_iff.2 ⟨parts', hparts', rfl⟩⟩

end Codec

/-! ## Compilations in another order -/

variable {config : Config} {document document' : Value} {table table' : Entries}
  {compilation compilation' : Compilation}

/-- What two compilations have in common that differ only in the order in which things are listed. -/
structure SameUpToOrder (config : Config) (compilation compilation' : Compilation) : Prop where
  /-- The declarations are the same. -/
  declarations : compilation.declarations.Perm compilation'.declarations
  /-- Every declaration has the same codec. -/
  codecs : ∀ d ∈ compilation.declarations,
    Codec.codecIn config compilation.declarations d
      = Codec.codecIn config compilation'.declarations d
  /-- The cycles are the same, in the same order. -/
  cycles : compilation.cycles = compilation'.cycles
  /-- The reports are the same. -/
  diagnostics : compilation.diagnostics.Perm compilation'.diagnostics

/-- Dangling identifiers are reported for declarations in another order as well. -/
theorem danglingDiagnostics_perm {declarations others : List Declaration}
    (h : declarations.Perm others) :
    (danglingDiagnostics declarations).Perm (danglingDiagnostics others) := by
  have hcontains : ∀ name, (Codec.declaredNames declarations).contains name
      = (Codec.declaredNames others).contains name := by
    intro name
    rw [Bool.eq_iff_iff, List.contains_iff_mem, List.contains_iff_mem]
    exact (h.filterMap fun d : Declaration => d.name.text?).mem_iff
  simp only [danglingDiagnostics, hcontains]
  exact h.flatMap_right _

/-- Components of entries in another order are the same. -/
theorem components_perm {components components' : List Schema.Component}
    (h : List.Forall₂ IsComponentOf table components)
    (h' : List.Forall₂ IsComponentOf table' components') (hperm : table.Perm table') :
    components.Perm components' :=
  List.rel_perm_imp (fun _ _ _ hfirst hsecond => hfirst.unique hsecond) h h' hperm

/-- **Another order.**  If two documents have the same component schemas in different orders, they are
compiled to the same up to order, and their modules consist of the same parts. -/
theorem compile_perm (schemas : HasSchemas document table) (schemas' : HasSchemas document' table')
    (hperm : table.Perm table') (h : (compile config document).outcome = .ok compilation)
    (h' : (compile config document').outcome = .ok compilation') :
    SameUpToOrder config compilation compilation' ∧
      ∀ text, (generate config document).outcome = .ok text →
        ∃ parts parts', Codec.ArePartsOf config compilation.declarations parts ∧
          text = Codec.moduleOf config parts ∧ parts.Perm parts' ∧
            Codec.ArePartsOf config compilation'.declarations parts' ∧
              (generate config document').outcome = .ok (Codec.moduleOf config parts') := by
  obtain ⟨stages, hfound, hbuildable, hdeclarations⟩ := exists_stages_of_compile schemas h
  obtain ⟨stages', hfound', hbuildable', hdeclarations'⟩ := exists_stages_of_compile schemas' h'
  have hbuilt : stages.declarations.Perm stages'.declarations := by
    rw [hdeclarations, hdeclarations']
    exact hperm.filterMap _
  have hsorted : compilation.declarations.Perm compilation'.declarations :=
    ((stages.perm schemas.hasTextNames).trans hbuilt).trans
      (stages'.perm schemas'.hasTextNames).symm
  have hcycles : stages.sorted.cycles = stages'.sorted.cycles :=
    Order.cycles_eq_of_perm (stages.namedApart schemas.hasTextNames) hbuilt stages.sort_eq
      stages'.sort_eq
  have hnotices : (Declaration.buildAll config stages.components).trace.Perm
      (Declaration.buildAll config stages'.components).trace := by
    rw [Declaration.buildAll_of_isBuildable hbuildable,
      Declaration.buildAll_of_isBuildable hbuildable']
    exact (components_perm hfound hfound' hperm).flatMap_right _
  refine ⟨⟨hsorted, fun d _ => congrFun (Codec.codecIn_eq_of_perm config hsorted) d, ?_, ?_⟩, ?_⟩
  · rw [stages.result_eq, stages'.result_eq]
    exact hcycles
  · have hdangling := danglingDiagnostics_perm hsorted
    rw [stages.result_eq, stages'.result_eq] at hdangling ⊢
    simp only [Compilation.ofStages, hcycles] at hdangling ⊢
    exact ((hnotices.filterMap _).append_right _).append hdangling
  · -- The modules are printed from the declarations.
    intro text htext
    rw [generate, Traced.outcome_bind_of_ok h] at htext
    rw [generate, Traced.outcome_bind_of_ok h']
    exact Codec.printModule_perm hsorted htext

/-! ## Parents and children -/

namespace Household

/-- A schema that refers to other component schemas with its properties. -/
def referring (name : Text) (properties : List (Text × Text)) : Scalar × Value :=
  (.text name, .table [(.text "type", .text "object"),
    (.text "properties", .table (properties.map fun property =>
      (.text property.1, .table [(.text "$ref", .text (Reference.toSchema property.2))])))])

/-- A schema of one of the primitive kinds. -/
def primitive (name kind : Text) : Scalar × Value :=
  (.text name, .table [(.text "type", .text kind)])

/-- Parents and children refer to each other; no schema describes toys. -/
def schemas : Entries :=
  [referring "Parent" [("child", "Child")],
    referring "Child" [("parent", "Parent"), ("toy", "Toy")],
    primitive "Label" "string", primitive "Age" "integer"]

/-- The declaration of parents. -/
def parent : Declaration :=
  ⟨.text "Parent", .record [⟨.text "child", .identifier "Child", true⟩], .bool true⟩

/-- The declaration of children. -/
def child : Declaration :=
  ⟨.text "Child", .record [⟨.text "parent", .identifier "Parent", true⟩,
    ⟨.text "toy", .identifier "Toy", true⟩], .bool true⟩

/-- The declaration of labels. -/
def label : Declaration := ⟨.text "Label", .primitive "string", .bool true⟩

/-- The declaration of ages. -/
def age : Declaration := ⟨.text "Age", .primitive "integer", .bool true⟩

/-- What is compiled, with the given declarations at the front. -/
def result (first second : Declaration) : Compilation where
  declarations := [first, second, child, parent]
  diagnostics := [⟨.referenceCycle, "declarations reference each other: Child, Parent", ""⟩,
    ⟨.danglingReference, "Child references undeclared 'Toy'", "#/components/schemas/Child"⟩]
  cycles := ([["Child", "Parent"]] : List (List Text))

/-- The names are texts, and different. -/
theorem hasSchemas_schemas : HasSchemas (Enumeration.documentOf schemas) schemas where
  checked := rfl
  schemas := rfl
  text := by simp [schemas, referring, primitive]
  apart := by simp [schemas, referring, primitive]

/-- In the reverse order as well. -/
theorem hasSchemas_reverse :
    HasSchemas (Enumeration.documentOf schemas.reverse) schemas.reverse where
  checked := rfl
  schemas := rfl
  text := by simp [schemas, referring, primitive]
  apart := by simp [schemas, referring, primitive]

/-- The components in the order of the document. -/
def components : List Schema.Component :=
  [⟨.text "Parent", .object "#/components/schemas/Parent" [
      (.text "child", .reference "#/components/schemas/Parent/properties/child"
        "#/components/schemas/Child")] [] none none⟩,
    ⟨.text "Child", .object "#/components/schemas/Child" [
      (.text "parent", .reference "#/components/schemas/Child/properties/parent"
        "#/components/schemas/Parent"),
      (.text "toy", .reference "#/components/schemas/Child/properties/toy"
        "#/components/schemas/Toy")] [] none none⟩,
    ⟨.text "Label", .string "#/components/schemas/Label" none⟩,
    ⟨.text "Age", .primitive "#/components/schemas/Age" "integer"⟩]

/-- The document is compiled. -/
theorem compile_schemas :
    (compile {} (Enumeration.documentOf schemas)).outcome = .ok (result label age) := by
  refine compile_outcome_eq_ok_iff.2 ⟨⟨{
    components := components
    declarations := [parent, child, label, age]
    sorted := ⟨[label, age, child, parent], ([["Child", "Parent"]] : List (List Text)), ["Child"]⟩
    checked := rfl
    classified := by cbv
    built := by cbv
    sort_eq := by cbv
    result_eq := by cbv }⟩, ?_⟩
  intro hstrict
  cases hstrict

/-- The declarations are sorted in the reverse order as well. -/
theorem sort_reverse : Order.sort [age, label, child, parent]
    = .ok ⟨[age, label, child, parent], [["Child", "Parent"]], ["Child"]⟩ := by
  have hnamed : Order.NamedApart [age, label, child, parent] := {
    text := by simp [age, label, child, parent]
    apart := by decide }
  have hcomplete : Order.Complete [age, label, child, parent] := by
    unfold Order.Complete
    decide
  have hgraph : Order.referenceGraph [age, label, child, parent] = [[], [], [3], [2]] := by
    decide +kernel
  have hfound : SchemaCodecs.components [[], [], [3], [2]] = some [[3, 2], [1], [0]] := by cbv
  have hreleased : (Order.releaseAll [[], [], [3], [2]] (Order.componentOf [[3, 2], [1], [0]])
      (Order.nameAt? [age, label, child, parent])
        (Order.Progress.start [[], [], [3], [2]])).toOption.map
          (fun last => (last.released, last.broken)) = some ([3, 2, 1, 0], [2]) := by cbv
  have hcycles : Order.cyclesOf [[], [], [3], [2]] [[3, 2], [1], [0]]
      (Order.nameAt? [age, label, child, parent]) = ([["Child", "Parent"]] : List (List Text)) := by
    have hcomponents : [[3, 2], [1], [0]].filter (Order.isCycle [[], [], [3], [2]]) = [[3, 2]] := by
      decide
    have hnames : [3, 2].filterMap (Order.nameAt? [age, label, child, parent])
        = (["Parent", "Child"] : List Text) := rfl
    have hchild : ¬ ("Parent" : Text) ≤ "Child" := by decide
    rw [Order.cyclesOf, hcomponents, List.map_singleton, hnames]
    simp [List.mergeSort, List.MergeSort.Internal.splitInTwo, hchild]
  rw [Order.sort_eq_of_released hnamed hcomplete hgraph hfound hreleased (by decide), hcycles]
  rfl

/-- In the reverse order labels and ages change places. -/
theorem compile_reverse :
    (compile {} (Enumeration.documentOf schemas.reverse)).outcome = .ok (result age label) := by
  refine compile_outcome_eq_ok_iff.2 ⟨⟨{
    components := components.reverse
    declarations := [age, label, child, parent]
    sorted := ⟨[age, label, child, parent], [["Child", "Parent"]], ["Child"]⟩
    checked := rfl
    classified := by cbv
    built := by cbv
    sort_eq := sort_reverse
    result_eq := by cbv }⟩, ?_⟩
  intro hstrict
  cases hstrict

/-- Both documents are compiled to the same up to order. -/
theorem compile_perm_reverse :
    HasSchemas (Enumeration.documentOf schemas) schemas ∧
      HasSchemas (Enumeration.documentOf schemas.reverse) schemas.reverse ∧
      schemas.Perm schemas.reverse ∧
      (compile {} (Enumeration.documentOf schemas)).outcome = .ok (result label age) ∧
      (compile {} (Enumeration.documentOf schemas.reverse)).outcome = .ok (result age label) ∧
      SameUpToOrder {} (result label age) (result age label) ∧
      ∀ text, (generate {} (Enumeration.documentOf schemas)).outcome = .ok text →
        ∃ parts parts', Codec.ArePartsOf {} (result label age).declarations parts ∧
          text = Codec.moduleOf {} parts ∧ parts.Perm parts' ∧
            Codec.ArePartsOf {} (result age label).declarations parts' ∧
              (generate {} (Enumeration.documentOf schemas.reverse)).outcome
                = .ok (Codec.moduleOf {} parts') :=
  ⟨hasSchemas_schemas, hasSchemas_reverse, schemas.reverse_perm.symm, compile_schemas,
    compile_reverse, compile_perm hasSchemas_schemas hasSchemas_reverse schemas.reverse_perm.symm
      compile_schemas compile_reverse⟩

end Household

end SchemaCodecs
