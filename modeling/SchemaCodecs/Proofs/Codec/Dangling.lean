/-
# Dangling identifiers

An identifier is dangling if it is no declared name.  Under the policy that prints such identifiers as
the codec of everything, a module reads as if the type of everything stood in their places; and these
are the identifiers that a compilation reports, each once for each declaration.

* `forgetDangling` : a type with the type of everything in place of dangling identifiers;
* `printModule_unknown` : the policy is this replacement;
* `count_danglingDiagnostics` : what is reported;
* `generate_unknown` : the policy and the reports agree.
-/
import SchemaCodecs.Proofs.Compile.Stages
import SchemaCodecs.Proofs.Declaration.Mention
import SchemaCodecs.Proofs.Text.Coding

namespace SchemaCodecs

namespace TypeExpr

/-! ## Forgetting identifiers -/

mutual

/-- A type with the type of everything in place of the identifiers that are not known. -/
def forgetDangling (known : List Text) : TypeExpr → TypeExpr
  | identifier name => if known.contains name then identifier name else intersection []
  | array items => array (forgetDangling known items)
  | record fields => record (forgetInFields known fields)
  | union members => union (forgetInMembers known members)
  | intersection members => intersection (forgetInMembers known members)
  | missing => missing
  | bare => bare
  | primitive kind => primitive kind
  | keyof values => keyof values

/-- Properties without dangling identifiers in their types. -/
def forgetInFields (known : List Text) : List (Field TypeExpr) → List (Field TypeExpr)
  | [] => []
  | ⟨name, type, optional⟩ :: rest =>
    ⟨name, forgetDangling known type, optional⟩ :: forgetInFields known rest

/-- Types without dangling identifiers. -/
def forgetInMembers (known : List Text) : List TypeExpr → List TypeExpr
  | [] => []
  | member :: rest => forgetDangling known member :: forgetInMembers known rest

end

variable (known : List Text)

mutual

/-- What is left of the identifiers of a type are those that are known. -/
theorem identifiers_forgetDangling : ∀ t : TypeExpr,
    (t.forgetDangling known).identifiers = t.identifiers.filter known.contains
  | identifier name => by
    rw [forgetDangling, identifiers, List.filter_singleton]
    cases known.contains name <;> rfl
  | array items => by
    rw [forgetDangling, identifiers, identifiers, identifiers_forgetDangling items]
  | record fields => by
    rw [forgetDangling, identifiers, identifiers, fieldIdentifiers_forgetInFields fields]
  | union members => by
    rw [forgetDangling, identifiers, identifiers, memberIdentifiers_forgetInMembers members]
  | intersection members => by
    rw [forgetDangling, identifiers, identifiers, memberIdentifiers_forgetInMembers members]
  | missing | bare | primitive _ | keyof _ => by simp [forgetDangling, identifiers]

/-- What is left of the identifiers of properties are those that are known. -/
theorem fieldIdentifiers_forgetInFields : ∀ fields : List (Field TypeExpr),
    fieldIdentifiers (forgetInFields known fields)
      = (fieldIdentifiers fields).filter known.contains
  | [] => rfl
  | ⟨name, type, optional⟩ :: rest => by
    rw [forgetInFields, fieldIdentifiers, fieldIdentifiers, List.filter_append,
      fieldIdentifiers_forgetInFields rest]
    congr 1
    exact identifiers_forgetDangling type

/-- What is left of the identifiers of types are those that are known. -/
theorem memberIdentifiers_forgetInMembers : ∀ members : List TypeExpr,
    memberIdentifiers (forgetInMembers known members)
      = (memberIdentifiers members).filter known.contains
  | [] => rfl
  | member :: rest => by
    rw [forgetInMembers, memberIdentifiers, memberIdentifiers, List.filter_append,
      memberIdentifiers_forgetInMembers rest, identifiers_forgetDangling member]

end

@[simp] theorem mentions_forgetDangling_iff (t : TypeExpr) (name : Text) :
    (t.forgetDangling known).Mentions name ↔ t.Mentions name ∧ name ∈ known := by
  have hmentions : ∀ u : TypeExpr, u.Mentions name ↔ name ∈ u.identifiers :=
    fun u => ⟨mem_identifiers_of_mentions, mentions_of_mem_identifiers u⟩
  rw [hmentions, hmentions, identifiers_forgetDangling, List.mem_filter, List.contains_iff_mem]

end TypeExpr

/-- A declaration without dangling identifiers in its type. -/
def Declaration.forgetDangling (known : List Text) (d : Declaration) : Declaration :=
  { d with type := d.type.forgetDangling known }

namespace Codec

open TypeExpr

/-! ## Printing without dangling identifiers -/

/-- The style in which dangling identifiers are the codec of everything. -/
def Style.hiding (integerCodec : Value) (known : List Text) : Style :=
  { integerCodec, danglingPolicy := .unknown, known := some known }

/-- The style in which all identifiers are printed as they are. -/
def Style.showing (integerCodec : Value) (known : List Text) : Style :=
  { integerCodec, danglingPolicy := .identifier, known := some known }

variable (integerCodec : Value) (known : List Text)

/-- Under the one policy a known identifier is printed as it is and another one as the codec of
everything; under the other policy every identifier is printed as it is. -/
theorem print_identifier (config : Config) (level : Nat) (name : Text) :
    print (Style.ofConfig { config with danglingPolicy := .unknown } (some known)) level
        (.identifier name) = .ok (if name ∈ known then name else "t.unknown") ∧
      print (Style.ofConfig { config with danglingPolicy := .identifier } (some known)) level
        (.identifier name) = .ok name := by
  constructor
  · show Except.ok (if (!known.contains name && true) = true then ("t.unknown" : Text) else name) = _
    by_cases h : name ∈ known <;> simp [h]
  · show Except.ok (if (!known.contains name && false) = true then ("t.unknown" : Text) else name) = _
    rw [Bool.and_false, if_neg Bool.false_ne_true]

/-- An identifier is printed as the type that is left of it. -/
theorem print_identifier_hiding (level : Nat) (name : Text) :
    print (.hiding integerCodec known) level (.identifier name)
      = print (.showing integerCodec known) level ((identifier name).forgetDangling known) := by
  obtain ⟨hhiding, hshowing⟩ := print_identifier known { integerCodec } level name
  refine hhiding.trans ?_
  rw [forgetDangling]
  by_cases hknown : name ∈ known
  · rw [if_pos hknown, if_pos (List.contains_iff_mem.2 hknown)]
    exact hshowing.symm
  · rw [if_neg hknown, if_neg (mt List.contains_iff_mem.1 hknown), print]

/-- Forgetting identifiers does not make or unmake the codec of integers. -/
theorem isIntegerCodec_forgetDangling :
    ∀ t : TypeExpr, isIntegerCodec (t.forgetDangling known) = isIntegerCodec t
  | .identifier name => by
    rw [forgetDangling]
    split <;> rfl
  | .union [member] => isIntegerCodec_forgetDangling member
  | .intersection [member] => isIntegerCodec_forgetDangling member
  | .union [] | .union (_ :: _ :: _) | .intersection [] | .intersection (_ :: _ :: _) => rfl
  | .missing | .bare | .primitive _ | .array _ | .record _ | .keyof _ => rfl

/-- The same holds of members. -/
theorem any_isIntegerCodec_forgetInMembers (members : List TypeExpr) :
    (forgetInMembers known members).any isIntegerCodec = members.any isIntegerCodec := by
  induction members with
  | nil => rfl
  | cons member rest ih =>
    rw [forgetInMembers, List.any_cons, List.any_cons, ih, isIntegerCodec_forgetDangling]

/-- Members are joined alike. -/
theorem join_hiding (combinator : Text) (members : List TypeExpr) (codecs : List Text) :
    Style.join (.hiding integerCodec known) combinator members codecs
      = Style.join (.showing integerCodec known) combinator (forgetInMembers known members)
          codecs := by
  rw [Style.join, Style.join, any_isIntegerCodec_forgetInMembers]
  rfl

mutual

/-- A type is printed as what is left of it without dangling identifiers. -/
theorem print_hiding (level : Nat) : ∀ t : TypeExpr,
    print (.hiding integerCodec known) level t
      = print (.showing integerCodec known) level (t.forgetDangling known)
  | .identifier name => print_identifier_hiding integerCodec known level name
  | .array items => by
    rw [forgetDangling, print, print, print_hiding level items]
  | .record fields => by
    rw [forgetDangling, print, print, printFields_hiding level false fields,
      printFields_hiding level true fields]
  | .union [] => rfl
  | .union [member] => by
    rw [forgetDangling, forgetInMembers, forgetInMembers, print, print, print_hiding level member]
  -- A single member is printed without its combinator, so only now the members are joined.
  | .union (first :: second :: rest) => by
    have hmembers := printMembers_hiding level (first :: second :: rest)
    have hjoin := join_hiding integerCodec known "t.union" (first :: second :: rest)
    rw [forgetDangling]
    simp only [forgetInMembers] at hmembers hjoin ⊢
    simp only [print, hmembers, hjoin]
  | .intersection [] => rfl
  | .intersection [member] => by
    rw [forgetDangling, forgetInMembers, forgetInMembers, print, print, print_hiding level member]
  | .intersection (first :: second :: rest) => by
    have hmembers := printMembers_hiding level (first :: second :: rest)
    have hjoin := join_hiding integerCodec known "t.intersection" (first :: second :: rest)
    rw [forgetDangling]
    simp only [forgetInMembers] at hmembers hjoin ⊢
    simp only [print, hmembers, hjoin]
  | .missing | .bare | .primitive _ | .keyof _ => rfl

/-- Properties are printed as what is left of them. -/
theorem printFields_hiding (level : Nat) (optional : Bool) : ∀ fields : List (Field TypeExpr),
    printFields (.hiding integerCodec known) level optional fields
      = printFields (.showing integerCodec known) level optional (forgetInFields known fields)
  | [] => rfl
  | ⟨name, type, own⟩ :: rest => by
    rw [forgetInFields, printFields, printFields, print_hiding (level + 1) type,
      printFields_hiding level optional rest]

/-- Members are printed as what is left of them. -/
theorem printMembers_hiding (level : Nat) : ∀ members : List TypeExpr,
    printMembers (.hiding integerCodec known) level members
      = printMembers (.showing integerCodec known) level (forgetInMembers known members)
  | [] => rfl
  | member :: rest => by
    rw [forgetInMembers, printMembers, printMembers, print_hiding level member,
      printMembers_hiding level rest]

end

/-- The codecs of declarations are printed as what is left of the declarations. -/
theorem codecLines_hiding (declarations : List Declaration) :
    codecLines (.hiding integerCodec known) declarations
      = codecLines (.showing integerCodec known)
          (declarations.map (Declaration.forgetDangling known)) := by
  induction declarations with
  | nil => rfl
  | cons d rest ih =>
    rw [List.map_cons, codecLines, codecLines, ih, print_hiding]
    rfl

/-- **The policy.**  To hide dangling identifiers is to print the declarations without them. -/
theorem printModule_unknown (config : Config) (declarations : List Declaration) :
    printModule { config with danglingPolicy := .unknown } declarations
      = printModule { config with danglingPolicy := .identifier }
          (declarations.map (Declaration.forgetDangling (declaredNames declarations))) := by
  have hnames : declaredNames (declarations.map
      (Declaration.forgetDangling (declaredNames declarations))) = declaredNames declarations := by
    rw [declaredNames, List.filterMap_map]
    rfl
  have htypes : (declarations.map
      (Declaration.forgetDangling (declaredNames declarations))).map typeLine
        = declarations.map typeLine := by
    rw [List.map_map]
    rfl
  have hcodecs := codecLines_hiding config.integerCodec (declaredNames declarations) declarations
  simp only [Style.hiding, Style.showing] at hcodecs
  simp only [printModule, Style.ofConfig, hnames, htypes, hcodecs]

end Codec

/-! ## Reports -/

/-- Whether a type mentions a name can be found out by walking through it. -/
instance (t : TypeExpr) (name : Text) : Decidable (t.Mentions name) :=
  decidable_of_iff (name ∈ t.identifiers)
    ⟨TypeExpr.mentions_of_mem_identifiers t, TypeExpr.mem_identifiers_of_mentions⟩

/-- A report tells its declaration and the name that is missing. -/
theorem danglingDiagnostic_inj {d e : Declaration} {name other : Text}
    (h : danglingDiagnostic d name = danglingDiagnostic e other) :
    d.name.display = e.name.display ∧ name = other := by
  simp only [danglingDiagnostic, Diagnostic.mk.injEq, true_and, Reference.toSchema] at h
  obtain ⟨hmessage, hpath⟩ := h
  have hnames : d.name.display = e.name.display := (Text.append_right_inj _).1 hpath
  rw [hnames] at hmessage
  exact ⟨hnames, Text.quoted_injective ((Text.append_right_inj _).1 hmessage)⟩

/-- The reports on the identifiers of a declaration that are not known. -/
def reportsOn (known : List Text) (d : Declaration) : List Diagnostic :=
  (d.references.filter fun name => !known.contains name).map (danglingDiagnostic d)

/-- In a declaration every dangling identifier is reported once. -/
theorem count_reportsOn (known : List Text) (d : Declaration) (name : Text) :
    (reportsOn known d).count (danglingDiagnostic d name)
      = if d.type.Mentions name ∧ name ∉ known then 1 else 0 := by
  have hinj : Function.Injective (danglingDiagnostic d) :=
    fun _ _ h => (danglingDiagnostic_inj h).2
  have hnodup : (d.references.filter fun name => !known.contains name).Nodup :=
    (nodup_distinctTexts _).filter _
  have hmem : name ∈ (d.references.filter fun name => !known.contains name) ↔
      d.type.Mentions name ∧ name ∉ known := by
    rw [List.mem_filter, Declaration.mem_references_iff]
    simp
  rw [reportsOn, List.count_map_of_injective _ _ hinj, hnodup.count, if_congr hmem rfl rfl]

/-- The reports on a declaration are not about one of another name. -/
theorem count_reportsOn_of_ne {known : List Text} {d e : Declaration} {name : Text}
    (h : d.name.display ≠ e.name.display) :
    (reportsOn known e).count (danglingDiagnostic d name) = 0 := by
  rw [List.count_eq_zero, reportsOn, List.mem_map]
  rintro ⟨other, -, heq⟩
  exact h (danglingDiagnostic_inj heq).1.symm

/-- The reports on declarations of other names are not about a declaration. -/
theorem count_flatMap_reportsOn {known : List Text} {d : Declaration} {name : Text}
    {others : List Declaration} (h : ∀ e ∈ others, d.name.display ≠ e.name.display) :
    (others.flatMap (reportsOn known)).count (danglingDiagnostic d name) = 0 := by
  induction others with
  | nil => rfl
  | cons e rest ih =>
    obtain ⟨he, hrest⟩ := List.forall_mem_cons.1 h
    rw [List.flatMap_cons, List.count_append, count_reportsOn_of_ne he, ih hrest]

/-- **Reports.**  Every dangling identifier is reported once for each declaration that it stands in,
and nothing else is. -/
theorem count_danglingDiagnostics {declarations : List Declaration}
    (h : Order.NamedApart declarations) {d : Declaration} (hd : d ∈ declarations) (name : Text) :
    (danglingDiagnostics declarations).count (danglingDiagnostic d name)
      = if d.type.Mentions name ∧ name ∉ Codec.declaredNames declarations then 1 else 0 := by
  have hreports : danglingDiagnostics declarations
      = declarations.flatMap (reportsOn (Codec.declaredNames declarations)) := rfl
  rw [hreports]
  generalize Codec.declaredNames declarations = known
  obtain ⟨before, after, rfl⟩ := List.append_of_mem hd
  -- The other declarations have other names.
  have hne : ∀ e ∈ before ++ after, d.name.display ≠ e.name.display := by
    intro e he hdisplay
    have hapart : ((d :: (before ++ after)).map (·.name)).Nodup :=
      (List.perm_middle.map _).nodup_iff.1 h.apart
    obtain ⟨name, hname⟩ := h.text d hd
    obtain ⟨other, hother⟩ := h.text e (List.perm_middle.mem_iff.2 (List.mem_cons_of_mem _ he))
    rw [hname, hother] at hdisplay
    have hsame : d.name = e.name := by
      rw [hname, hother]
      exact congrArg Scalar.text hdisplay
    refine (List.nodup_cons.1 hapart).1 ?_
    show d.name ∈ _
    rw [hsame]
    exact List.mem_map_of_mem he
  obtain ⟨hbefore, hafter⟩ := List.forall_mem_append.1 hne
  rw [List.flatMap_append, List.flatMap_cons, List.count_append, List.count_append,
    count_flatMap_reportsOn hbefore, count_flatMap_reportsOn hafter, count_reportsOn]
  omega

/-- The dangling identifiers among the diagnostics of a compilation are those reported for its
declarations. -/
theorem Stages.filter_diagnostics {config : Config} {document : Value} {compilation : Compilation}
    (stages : Stages config document compilation) :
    compilation.diagnostics.filter (·.kind = .danglingReference)
      = danglingDiagnostics compilation.declarations := by
  have hnotices : ∀ notices : List Notice,
      (notices.filterMap Notice.diagnostic?).filter (·.kind = .danglingReference) = [] := by
    intro notices
    refine List.filter_eq_nil_iff.2 fun report hreport => ?_
    obtain ⟨notice, -, hnotice⟩ := List.mem_filterMap.1 hreport
    obtain ⟨cause, -, rfl⟩ := Option.map_eq_some_iff.1 hnotice
    simp
  have hcycles : ∀ cycles : List (List Text),
      (cycles.map cycleDiagnostic).filter (·.kind = .danglingReference) = [] := by
    intro cycles
    refine List.filter_eq_nil_iff.2 fun report hreport => ?_
    obtain ⟨cycle, -, rfl⟩ := List.mem_map.1 hreport
    simp [cycleDiagnostic]
  have hdangling : ∀ declarations : List Declaration,
      (danglingDiagnostics declarations).filter (·.kind = .danglingReference)
        = danglingDiagnostics declarations := by
    intro declarations
    refine List.filter_eq_self.2 fun report hreport => ?_
    obtain ⟨d, -, hreport⟩ := List.mem_flatMap.1 hreport
    obtain ⟨name, -, rfl⟩ := List.mem_map.1 hreport
    simp [danglingDiagnostic]
  rw [stages.result_eq]
  simp only [Compilation.ofStages, List.filter_append, hnotices, hcycles, hdangling,
    List.nil_append]

/-! ## Policy and reports -/

/-- Compiling does not depend on the policy for dangling identifiers. -/
theorem compile_withPolicy (config : Config) (policy : DanglingPolicy) (document : Value) :
    compile { config with danglingPolicy := policy } document = compile config document := by
  have hbuild : Declaration.buildAll { config with danglingPolicy := policy }
      = Declaration.buildAll config :=
    Declaration.buildAll_congr (fun _ => rfl) rfl
  have hbuildDeclarations : buildDeclarations { config with danglingPolicy := policy }
      = buildDeclarations config := by
    funext components
    rw [buildDeclarations, buildDeclarations, hbuild]
  rw [compile, compile, hbuildDeclarations]

/-- **Policy and reports.**  Under the policy that hides dangling identifiers the module of a document
reads as under the other policy with the type of everything in place of some identifiers.  Under both
policies a declared name is printed as it is, and an undeclared one is the codec of everything under
the first.  In each declaration the identifiers that give way are the ones reported for it, each once;
every other identifier stays. -/
theorem generate_unknown {config : Config} {document : Value} {compilation : Compilation}
    (htexts : Schema.HasTextNames document)
    (h : (compile config document).outcome = .ok compilation) :
    (generate { config with danglingPolicy := .unknown } document).outcome
        = Codec.printModule { config with danglingPolicy := .identifier }
          (compilation.declarations.map
            (Declaration.forgetDangling (Codec.declaredNames compilation.declarations))) ∧
      (∀ (level : Nat) (name : Text),
        Codec.print (.ofConfig { config with danglingPolicy := .unknown }
          (some (Codec.declaredNames compilation.declarations))) level (.identifier name)
            = .ok (if name ∈ Codec.declaredNames compilation.declarations then name
              else "t.unknown") ∧
        Codec.print (.ofConfig { config with danglingPolicy := .identifier }
          (some (Codec.declaredNames compilation.declarations))) level (.identifier name)
            = .ok name) ∧
      (∀ d ∈ compilation.declarations, ∀ name : Text,
        ((d.forgetDangling (Codec.declaredNames compilation.declarations)).type.Mentions name ↔
          d.type.Mentions name ∧ name ∈ Codec.declaredNames compilation.declarations) ∧
        compilation.diagnostics.count (danglingDiagnostic d name)
          = if d.type.Mentions name ∧ name ∉ Codec.declaredNames compilation.declarations
            then 1 else 0) ∧
      ∀ report ∈ compilation.diagnostics, report.kind = .danglingReference →
        ∃ d ∈ compilation.declarations, ∃ name, report = danglingDiagnostic d name := by
  obtain ⟨⟨stages⟩, -⟩ := compile_outcome_eq_ok_iff.1 h
  have hapart := stages.namedApart_compilation htexts
  refine ⟨?_, Codec.print_identifier _ config, fun d hd name => ⟨?_, ?_⟩,
    fun report hreport hkind => ?_⟩
  -- Compiling does not read the policy, so both modules are printed from one compilation.
  · rw [generate, compile_withPolicy, Traced.outcome_bind_of_ok h, ← Codec.printModule_unknown]
    rfl
  · exact TypeExpr.mentions_forgetDangling_iff _ d.type name
  · rw [← count_danglingDiagnostics hapart hd, ← stages.filter_diagnostics, List.count_filter]
    simp [danglingDiagnostic]
  · have hmem : report ∈ danglingDiagnostics compilation.declarations := by
      rw [← stages.filter_diagnostics]
      exact List.mem_filter.2 ⟨hreport, by simpa using hkind⟩
    obtain ⟨d, hd, hreport⟩ := List.mem_flatMap.1 hmem
    obtain ⟨name, -, heq⟩ := List.mem_map.1 hreport
    exact ⟨d, hd, name, heq.symm⟩

/-! ## A document with a missing schema -/

namespace MissingOwner

/-- A reference to a component schema. -/
def refTo (name : Text) : Value :=
  .table [(.text "$ref", .text (Reference.toSchema name))]

/-- Pets have an owner, a tag and a keeper; no schema describes owners and keepers. -/
def schemas : Entries :=
  [(.text "Pet", .table [(.text "type", .text "object"),
      (.text "properties", .table [(.text "owner", refTo "Owner"), (.text "tag", refTo "Tag"),
        (.text "keeper", refTo "Owner")]),
      (.text "required", .sequence [.text "owner"])]),
    (.text "Tag", .table [(.text "type", .text "string")])]

/-- The document with these schemas. -/
def document : Value :=
  .table [(.text "openapi", .text "3.0.0"),
    (.text "components", .table [(.text "schemas", .table schemas)])]

/-- The usual configuration. -/
def config : Config := {}

/-- The declaration of pets. -/
def pet : Declaration where
  name := .text "Pet"
  type := .record [⟨.text "owner", .identifier "Owner", false⟩,
    ⟨.text "tag", .identifier "Tag", true⟩, ⟨.text "keeper", .identifier "Owner", true⟩]
  exported := .bool true

/-- The declaration of tags. -/
def tag : Declaration where
  name := .text "Tag"
  type := .primitive "string"
  exported := .bool true

/-- The compilation reports that there are no owners. -/
def compilation : Compilation where
  declarations := [tag, pet]
  diagnostics := [⟨.danglingReference, "Pet references undeclared 'Owner'",
    "#/components/schemas/Pet"⟩]
  cycles := []

/-- The document is compiled so. -/
theorem compile_document : (compile config document).outcome = .ok compilation := by
  refine compile_outcome_eq_ok_iff.2 ⟨⟨{
    components := [
      ⟨.text "Pet", .object "#/components/schemas/Pet" [
        (.text "owner", .reference "#/components/schemas/Pet/properties/owner"
          "#/components/schemas/Owner"),
        (.text "tag", .reference "#/components/schemas/Pet/properties/tag"
          "#/components/schemas/Tag"),
        (.text "keeper", .reference "#/components/schemas/Pet/properties/keeper"
          "#/components/schemas/Owner")] [.text "owner"] none none⟩,
      ⟨.text "Tag", .string "#/components/schemas/Tag" none⟩]
    declarations := [pet, tag]
    sorted := ⟨[tag, pet], [], []⟩
    checked := rfl
    classified := by cbv
    built := rfl
    sort_eq := by cbv
    result_eq := by cbv }⟩, ?_⟩
  intro hstrict
  cases hstrict

/-- The names of the schemas are texts. -/
theorem hasTextNames_document : Schema.HasTextNames document := by
  intro table htable
  have hschemas : Schema.componentSchemas document = .ok schemas := by cbv
  obtain rfl := Except.ok.inj (hschemas.symm.trans htable)
  simp [schemas]

/-- Without the missing schema the module has the codec of everything for owner and keeper, which
were reported once; the tag stays. -/
theorem generate_unknown_document : Schema.HasTextNames document ∧
    (compile config document).outcome = .ok compilation ∧
    (generate { config with danglingPolicy := .unknown } document).outcome
        = Codec.printModule { config with danglingPolicy := .identifier }
          (compilation.declarations.map
            (Declaration.forgetDangling (Codec.declaredNames compilation.declarations))) ∧
      (∀ (level : Nat) (name : Text),
        Codec.print (.ofConfig { config with danglingPolicy := .unknown }
          (some (Codec.declaredNames compilation.declarations))) level (.identifier name)
            = .ok (if name ∈ Codec.declaredNames compilation.declarations then name
              else "t.unknown") ∧
        Codec.print (.ofConfig { config with danglingPolicy := .identifier }
          (some (Codec.declaredNames compilation.declarations))) level (.identifier name)
            = .ok name) ∧
      (∀ d ∈ compilation.declarations, ∀ name : Text,
        ((d.forgetDangling (Codec.declaredNames compilation.declarations)).type.Mentions name ↔
          d.type.Mentions name ∧ name ∈ Codec.declaredNames compilation.declarations) ∧
        compilation.diagnostics.count (danglingDiagnostic d name)
          = if d.type.Mentions name ∧ name ∉ Codec.declaredNames compilation.declarations
            then 1 else 0) ∧
      ∀ report ∈ compilation.diagnostics, report.kind = .danglingReference →
        ∃ d ∈ compilation.declarations, ∃ name, report = danglingDiagnostic d name :=
  ⟨hasTextNames_document, compile_document,
    generate_unknown hasTextNames_document compile_document⟩

end MissingOwner

end SchemaCodecs
