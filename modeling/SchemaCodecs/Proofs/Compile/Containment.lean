/-
# Unsupported schemas stay contained

A component schema that cannot be declared does not get in the way of the others.  A document is
compiled whenever the keywords of its schemas have values that fit and the reasons that are given can
be shown; then every component schema that is not ignored is declared or reported, and so is
everything that a declaration leaves out.  The declaration of a component schema depends on its own
entry in the table of schemas only.

* `declarationOf` : the declaration that an entry gives;
* `exists_compile_iff` : the documents that are compiled;
* `Accounts` : what becomes of the entries;
* `compile_contained` : all of it, with what an entry changes in the result.
-/
import SchemaCodecs.Proofs.Compile.Stages
import SchemaCodecs.Proofs.Declaration.Complete
import SchemaCodecs.Proofs.Declaration.Omission
import SchemaCodecs.Proofs.Schema.Places
import SchemaCodecs.Proofs.Value.Equality

namespace SchemaCodecs

open Schema

variable {config : Config} {document : Value} {table : Entries} {compilation : Compilation}

/-! ## Entries of the table of schemas -/

/-- A component comes from an entry of the table. -/
structure IsComponentOf (entry : Scalar × Value) (component : Component) : Prop where
  /-- The key can be shown. -/
  shown : entry.1.isShowable = true
  /-- The key is the name. -/
  name_eq : component.name = entry.1
  /-- The node of the schema at its place is the body. -/
  body_eq : classify (Reference.toSchema entry.1.display) entry.2 = .ok component.body

/-- There is only one such component. -/
theorem IsComponentOf.unique {entry : Scalar × Value} {first second : Component}
    (hfirst : IsComponentOf entry first) (hsecond : IsComponentOf entry second) :
    first = second := by
  have hname : first.name = second.name := hfirst.name_eq.trans hsecond.name_eq.symm
  have hbody : first.body = second.body :=
    Except.ok.inj (hfirst.body_eq.symm.trans hsecond.body_eq)
  cases first
  cases second
  cases hname
  cases hbody
  rfl

/-- The declaration that an entry gives, if it gives one. -/
def declarationOf (config : Config) (entry : Scalar × Value) : Option Declaration :=
  match classify (Reference.toSchema entry.1.display) entry.2 with
  | .ok body => Declaration.declared? config ⟨entry.1, body⟩
  | .error _ => none

/-- An entry gives the declaration of its component. -/
theorem declarationOf_eq {entry : Scalar × Value} {component : Component}
    (h : IsComponentOf entry component) :
    declarationOf config entry = Declaration.declared? config component := by
  obtain ⟨name, body⟩ := component
  obtain ⟨-, rfl, hbody⟩ := h
  rw [declarationOf, hbody]

/-- The entries give the declarations of the components. -/
theorem filterMap_declarationOf {components : List Component}
    (h : List.Forall₂ IsComponentOf table components) :
    table.filterMap (declarationOf config) = components.filterMap (Declaration.declared? config) := by
  induction h with
  | nil => rfl
  | cons hfirst _ ih => rw [List.filterMap_cons, List.filterMap_cons, declarationOf_eq hfirst, ih]

/-- A declaration has the name of its entry. -/
theorem name_of_declarationOf {entry : Scalar × Value} {d : Declaration}
    (h : declarationOf config entry = some d) : d.name = entry.1 := by
  rw [declarationOf] at h
  split at h
  · exact Declaration.name_of_declared? h
  · cases h

/-- The type of a declaration is whole. -/
theorem isWhole_of_declarationOf {entry : Scalar × Value} {d : Declaration}
    (h : declarationOf config entry = some d) : d.type.IsWhole := by
  rw [declarationOf] at h
  split at h
  · exact Declaration.isWhole_of_declared? h
  · cases h

/-- The declarations have names of entries, in their order. -/
theorem sublist_names (config : Config) (table : Entries) :
    ((table.filterMap (declarationOf config)).map (·.name)).Sublist (table.map (·.1)) := by
  induction table with
  | nil => exact .slnil
  | cons entry rest ih =>
    rw [List.filterMap_cons, List.map_cons]
    split
    · exact ih.cons _
    · next d hd =>
      rw [List.map_cons, name_of_declarationOf hd]
      exact ih.cons_cons _

/-- A component can be classified, and the reasons given for it can be shown. -/
structure EntryFits (config : Config) (entry : Scalar × Value) : Prop where
  /-- At each place in the schema the keywords that count have values that fit, and none is met
  again. -/
  places : PlacesFit entry.2
  /-- The reasons can be shown. -/
  reasons : ∀ component, IsComponentOf entry component →
    Declaration.HasShownReasons config component

/-! ## Documents with a table of schemas -/

/-- A document that is accepted, with the table of its component schemas.  Their names are texts, and
each of them stands there once. -/
structure HasSchemas (document : Value) (table : Entries) : Prop where
  /-- The document is accepted. -/
  checked : checkDocument document = .ok document
  /-- The table is that of the document. -/
  schemas : componentSchemas document = .ok table
  /-- The names are texts. -/
  text : ∀ entry ∈ table, ∃ name, entry.1 = .text name
  /-- The names are different. -/
  apart : (table.map (·.1)).Nodup

namespace HasSchemas

theorem hasTextNames (h : HasSchemas document table) : HasTextNames document := by
  intro other hother
  obtain rfl := Except.ok.inj (h.schemas.symm.trans hother)
  exact h.text

/-- The components of a document come from the entries of its table. -/
theorem components_eq_ok_iff (h : HasSchemas document table) (components : List Component) :
    Schema.components document = .ok components ↔ List.Forall₂ IsComponentOf table components := by
  rw [Schema.components_eq_ok_iff]
  constructor
  · rintro ⟨other, hother, hfound⟩
    obtain rfl := Except.ok.inj (h.schemas.symm.trans hother)
    exact hfound.imp fun _ _ hentry => ⟨hentry.1, hentry.2.1, hentry.2.2⟩
  · intro hfound
    exact ⟨table, h.schemas, hfound.imp fun _ _ hentry =>
      ⟨hentry.shown, hentry.name_eq, hentry.body_eq⟩⟩

/-- The document is classified if at each place in its schemas the keywords that count have values
that fit, and no mapping is met again. -/
theorem exists_components_iff (h : HasSchemas document table) :
    (∃ components, Schema.components document = .ok components) ↔
      ∀ entry ∈ table, PlacesFit entry.2 := by
  simp only [h.components_eq_ok_iff, exists_forall₂_iff]
  refine forall₂_congr fun entry hentry => ?_
  rw [← exists_classify_iff (Reference.toSchema entry.1.display)]
  constructor
  · rintro ⟨component, hcomponent⟩
    exact ⟨component.body, hcomponent.body_eq⟩
  · rintro ⟨body, hbody⟩
    obtain ⟨name, hname⟩ := h.text entry hentry
    exact ⟨⟨entry.1, body⟩, by rw [hname]; rfl, rfl, hbody⟩

/-- The declarations are told apart by their names. -/
theorem namedApart (h : HasSchemas document table) (config : Config) :
    Order.NamedApart (table.filterMap (declarationOf config)) where
  text d hd := by
    obtain ⟨entry, hentry, hdeclared⟩ := List.mem_filterMap.1 hd
    rw [name_of_declarationOf hdeclared]
    exact h.text entry hentry
  apart := h.apart.sublist (sublist_names config table)

/-- Nothing in the declarations is missing. -/
theorem complete (config : Config) (table : Entries) :
    Order.Complete (table.filterMap (declarationOf config)) := by
  intro d hd
  obtain ⟨entry, -, hdeclared⟩ := List.mem_filterMap.1 hd
  exact (isWhole_of_declarationOf hdeclared).2

end HasSchemas

/-! ## Reports -/

/-- What becomes of the entries of the table of schemas in a compilation. -/
structure Accounts (config : Config) (table : Entries) (compilation : Compilation) : Prop where
  /-- The declarations are those that the entries give. -/
  perm : compilation.declarations.Perm (table.filterMap (declarationOf config))
  /-- An entry that is not ignored is declared, or it is reported. -/
  declared_or_reported : ∀ entry ∈ table, config.ignores entry.1 = .ok false →
    (∃ d ∈ compilation.declarations, d.name = entry.1) ∨
      ∃ reason, ⟨.unsupportedShape, reason, Reference.toSchema entry.1.display⟩
        ∈ compilation.diagnostics
  /-- Whatever has no type in a schema that can be declared is reported. -/
  reported : ∀ entry ∈ table, config.ignores entry.1 = .ok false → ∀ body,
    classify (Reference.toSchema entry.1.display) entry.2 = .ok body → body.isDeclarable = true →
      ∀ inner cause, body.Uses inner → inner.resolve.2 = .error cause →
        ⟨.unsupportedShape, cause.reason, cause.path⟩ ∈ compilation.diagnostics

/-- The reasons noted for the components are reported. -/
theorem Stages.mem_diagnostics (stages : Stages config document compilation) {component : Component}
    (hcomponent : component ∈ stages.components) {cause : Unsupported}
    (hcause : cause ∈ causesOf (Declaration.noticesOn config component)) :
    ⟨.unsupportedShape, cause.reason, cause.path⟩ ∈ compilation.diagnostics := by
  obtain ⟨hbuildable, -⟩ := Declaration.buildAll_outcome_eq_ok_iff.1 stages.built
  obtain ⟨notice, hnotice, heq⟩ := List.mem_filterMap.1 hcause
  have hdiagnostics := congrArg Compilation.diagnostics stages.result_eq
  rw [hdiagnostics, Declaration.buildAll_of_isBuildable hbuildable]
  refine List.mem_append_left _ (List.mem_append_left _ (List.mem_filterMap.2 ⟨notice, ?_, ?_⟩))
  · exact List.mem_flatMap.2 ⟨component, hcomponent, hnotice⟩
  · rw [Notice.diagnostic?, heq]
    rfl

/-! ## Compiling -/

/-- A configuration that tolerates problems and lists the names of the schemas to leave out. -/
structure IsTolerant (config : Config) (ignored : List Text) : Prop where
  /-- Problems do not end the compilation. -/
  tolerant : config.strict.isTruthy = false
  /-- The schemas to leave out are listed. -/
  listed : config.ignoreSchemas = some (.sequence (ignored.map .text))

section Compiling

variable {ignored : List Text}

/-- A component can be built if the reasons given for it can be shown. -/
theorem IsTolerant.isBuildable_iff (tolerant : IsTolerant config ignored) (component : Component) :
    Declaration.IsBuildable config component ↔ Declaration.HasShownReasons config component := by
  have htested : ∃ result, config.ignores component.name = .ok result := by
    rw [Config.ignores, tolerant.listed]
    exact ⟨_, rfl⟩
  obtain ⟨result, hresult⟩ := htested
  exact Declaration.isBuildable_iff hresult

variable (schemas : HasSchemas document table)

include schemas

/-- A compilation goes through its stages with the components of the document. -/
theorem exists_stages_of_compile (h : (compile config document).outcome = .ok compilation) :
    ∃ stages : Stages config document compilation,
      List.Forall₂ IsComponentOf table stages.components ∧
        (∀ component ∈ stages.components, Declaration.IsBuildable config component) ∧
          stages.declarations = table.filterMap (declarationOf config) := by
  obtain ⟨⟨stages⟩, -⟩ := compile_outcome_eq_ok_iff.1 h
  have hfound := (schemas.components_eq_ok_iff stages.components).1 stages.classified
  obtain ⟨hbuildable, hdeclarations⟩ := Declaration.buildAll_outcome_eq_ok_iff.1 stages.built
  exact ⟨stages, hfound, hbuildable, by rw [hdeclarations, filterMap_declarationOf hfound]⟩

/-- **Accounts.**  In a compilation every entry is accounted for. -/
theorem accounts_of_compile (h : (compile config document).outcome = .ok compilation) :
    Accounts config table compilation := by
  obtain ⟨stages, hfound, -, hdeclarations⟩ := exists_stages_of_compile schemas h
  have hperm : compilation.declarations.Perm (table.filterMap (declarationOf config)) :=
    hdeclarations ▸ stages.perm schemas.hasTextNames
  refine ⟨hperm, fun entry hentry considered => ?_,
    fun entry hentry considered body hbody declarable inner cause huses hcause => ?_⟩
  · obtain ⟨component, hcomponent, hof⟩ := exists_of_forall₂ hfound hentry
    cases hdeclared : declarationOf config entry with
    | some d =>
      refine Or.inl ⟨d, hperm.mem_iff.2 ?_, name_of_declarationOf hdeclared⟩
      exact List.mem_filterMap.2 ⟨entry, hentry, hdeclared⟩
    | none =>
      rw [declarationOf_eq hof] at hdeclared
      rw [← hof.name_eq] at considered
      obtain ⟨cause, hcause, hpath⟩ :=
        Declaration.exists_cause_of_declared?_eq_none considered hdeclared
      have hreported := stages.mem_diagnostics hcomponent hcause
      -- The reason names the place of the node, which is that of the schema.
      rw [hpath, path_of_classify hof.body_eq] at hreported
      exact Or.inr ⟨_, hreported⟩
  · obtain ⟨component, hcomponent, hof⟩ := exists_of_forall₂ hfound hentry
    obtain rfl := Except.ok.inj (hof.body_eq.symm.trans hbody)
    rw [← hof.name_eq] at considered
    refine stages.mem_diagnostics hcomponent ?_
    rw [Declaration.noticesOn, considered, Declaration.mem_causesOf_buildNotices declarable,
      Node.reports_iff]
    exact ⟨inner, huses, hcause⟩

variable (tolerant : IsTolerant config ignored)

include tolerant

/-- A document whose components can be built is compiled. -/
theorem exists_compile_of_isBuildable {components : List Component}
    (hfound : List.Forall₂ IsComponentOf table components)
    (hbuildable : ∀ component ∈ components, Declaration.IsBuildable config component) :
    ∃ compilation, (compile config document).outcome = .ok compilation := by
  -- Sorting cannot fail: the names are different, and no type lacks a member.
  obtain ⟨⟨sorted, hsort, -⟩, -⟩ :=
    Order.sort_total (schemas.namedApart config) (HasSchemas.complete config table)
  rw [filterMap_declarationOf hfound] at hsort
  refine ⟨_, compile_outcome_eq_ok_iff.2 ⟨⟨components, _, sorted, schemas.checked,
    (schemas.components_eq_ok_iff components).2 hfound,
    Declaration.buildAll_outcome_eq_ok_iff.2 ⟨hbuildable, rfl⟩, hsort, rfl⟩, ?_⟩⟩
  rw [tolerant.tolerant]
  intro hstrict
  cases hstrict

/-- **Compiling.**  A document is compiled exactly if all entries of its table of schemas fit. -/
theorem exists_compile_iff : (∃ compilation, (compile config document).outcome = .ok compilation) ↔
    ∀ entry ∈ table, EntryFits config entry := by
  constructor
  · rintro ⟨compilation, hcompile⟩ entry hentry
    obtain ⟨stages, hfound, hbuildable, -⟩ := exists_stages_of_compile schemas hcompile
    have hkeywords := schemas.exists_components_iff.1 ⟨_, stages.classified⟩
    refine ⟨hkeywords entry hentry, fun component hcomponent => ?_⟩
    obtain ⟨other, hother, hcomponentOf⟩ := exists_of_forall₂ hfound hentry
    obtain rfl := hcomponent.unique hcomponentOf
    exact (tolerant.isBuildable_iff component).1 (hbuildable component hother)
  · intro fits
    obtain ⟨components, hcomponents⟩ :=
      schemas.exists_components_iff.2 fun entry hentry => (fits entry hentry).places
    have hfound := (schemas.components_eq_ok_iff components).1 hcomponents
    refine exists_compile_of_isBuildable schemas tolerant hfound fun component hcomponent => ?_
    obtain ⟨entry, hentry, hcomponentOf⟩ := exists_of_forall₂ hfound.flip hcomponent
    exact (tolerant.isBuildable_iff component).2 ((fits entry hentry).reasons component hcomponentOf)

/-! ## Containment -/

/-- **Containment.**  A document is compiled exactly if all entries of its table of schemas fit.  Then
all of them are accounted for; and without one of the entries the document is compiled as well, with
the same declarations except the one that this entry gives. -/
theorem compile_contained :
    ((∃ compilation, (compile config document).outcome = .ok compilation) ↔
      ∀ entry ∈ table, EntryFits config entry) ∧
    ∀ compilation, (compile config document).outcome = .ok compilation →
      Accounts config table compilation ∧
        ∀ before entry after, table = before ++ entry :: after → ∀ smaller,
          checkDocument smaller = .ok smaller → componentSchemas smaller = .ok (before ++ after) →
            ∃ other, (compile config smaller).outcome = .ok other ∧
              compilation.declarations.Perm
                ((declarationOf config entry).toList ++ other.declarations) := by
  refine ⟨exists_compile_iff schemas tolerant, fun compilation hcompile => ?_⟩
  have accounts := accounts_of_compile schemas hcompile
  have fits := (exists_compile_iff schemas tolerant).1 ⟨compilation, hcompile⟩
  refine ⟨accounts, fun before entry after htable smaller hchecked hsmaller => ?_⟩
  subst htable
  -- Every condition is on single entries, so it passes to the smaller table.
  have hsublist : (before ++ after).Sublist (before ++ entry :: after) :=
    (List.sublist_cons_self entry after).append_left before
  have hschemas : HasSchemas smaller (before ++ after) :=
    ⟨hchecked, hsmaller, fun e he => schemas.text e (hsublist.subset he),
      schemas.apart.sublist (hsublist.map _)⟩
  obtain ⟨other, hother⟩ := (exists_compile_iff hschemas tolerant).2 fun e he =>
    fits e (hsublist.subset he)
  have hperm := (accounts_of_compile hschemas hother).perm
  refine ⟨other, hother, accounts.perm.trans ?_⟩
  have hsplit : (before ++ entry :: after).filterMap (declarationOf config)
      = before.filterMap (declarationOf config) ++ ((declarationOf config entry).toList
        ++ after.filterMap (declarationOf config)) := by
    rw [List.filterMap_append, List.filterMap_cons]
    cases declarationOf config entry <;> rfl
  rw [List.filterMap_append] at hperm
  rw [hsplit]
  exact (List.perm_append_comm_assoc _ _ _).trans (hperm.symm.append_left _)

end Compiling

/-! ## An enumeration that is none -/

namespace Enumeration

/-- A schema for texts with an enumeration. -/
def flag (enumeration : Value) : Scalar × Value :=
  (.text "Flag", .table [(.text "type", .text "string"), (.text "enum", enumeration)])

/-- A schema for texts without one. -/
def name : Scalar × Value :=
  (.text "Name", .table [(.text "type", .text "string")])

/-- The document with a table of schemas. -/
def documentOf (table : Entries) : Value :=
  .table [(.text "openapi", .text "3.0.0"),
    (.text "components", .table [(.text "schemas", .table table)])]

/-- An enumeration with a truth value in it: the schema is reported, the other one declared. -/
def result : Compilation where
  declarations := [⟨.text "Name", .primitive "string", .bool true⟩]
  diagnostics := [⟨.unsupportedShape, "enum values must all be strings, got [True]",
    "#/components/schemas/Flag"⟩]
  cycles := []

/-- The document has the table for its schemas. -/
theorem hasSchemas_documentOf (enumeration : Value) :
    HasSchemas (documentOf [flag enumeration, name]) [flag enumeration, name] where
  checked := rfl
  schemas := rfl
  text := by simp [flag, name]
  apart := by simp [flag, name]

theorem isTolerant_default : IsTolerant {} [] := ⟨rfl, rfl⟩

/-- The document with such an enumeration is compiled. -/
theorem compile_sequence :
    (compile {} (documentOf [flag (.sequence [.bool true]), name])).outcome = .ok result := by
  refine compile_outcome_eq_ok_iff.2 ⟨⟨{
    components := [⟨.text "Flag", .string "#/components/schemas/Flag" (some [.bool true])⟩,
      ⟨.text "Name", .string "#/components/schemas/Name" none⟩]
    declarations := result.declarations
    sorted := ⟨result.declarations, [], []⟩
    checked := rfl
    classified := by cbv
    built := by cbv
    sort_eq := by cbv
    result_eq := by cbv }⟩, ?_⟩
  intro hstrict
  cases hstrict

/-- The schema with the enumeration is accounted for, and leaves the other one as it is. -/
theorem compile_contained_sequence :
    HasSchemas (documentOf [flag (.sequence [.bool true]), name])
        [flag (.sequence [.bool true]), name] ∧
      IsTolerant {} [] ∧
      (compile {} (documentOf [flag (.sequence [.bool true]), name])).outcome = .ok result ∧
      (∀ entry ∈ [flag (.sequence [.bool true]), name], EntryFits {} entry) ∧
      Accounts {} [flag (.sequence [.bool true]), name] result ∧
        ∃ other, (compile {} (documentOf [name])).outcome = .ok other ∧
          result.declarations.Perm
            ((declarationOf {} (flag (.sequence [.bool true]))).toList ++ other.declarations) := by
  have hschemas := hasSchemas_documentOf (.sequence [.bool true])
  obtain ⟨hcompiled, hcontained⟩ := @compile_contained {} _ _ [] hschemas isTolerant_default
  obtain ⟨haccounts, hsmaller⟩ := hcontained result compile_sequence
  exact ⟨hschemas, isTolerant_default, compile_sequence, hcompiled.1 ⟨_, compile_sequence⟩,
    haccounts, hsmaller [] _ _ rfl _ rfl rfl⟩

/-- With a truth value for the enumeration the document is not compiled. -/
theorem compile_fails_at_enumeration :
    HasSchemas (documentOf [flag (.bool true), name]) [flag (.bool true), name] ∧
      IsTolerant {} [] ∧ (compile {} (documentOf [flag (.bool true), name])).outcome
        = .error (.illTyped .notIterable) := by
  refine ⟨hasSchemas_documentOf _, isTolerant_default, ?_⟩
  cbv

end Enumeration

end SchemaCodecs
