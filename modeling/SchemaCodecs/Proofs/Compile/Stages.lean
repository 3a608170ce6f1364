/-
# The stages of a compilation

A compilation that gives a result has gone through all its stages: the document was accepted, its
schemas were classified, declarations were built from them and sorted.  The result is what the
stages have given.
-/
import SchemaCodecs.Compile
import SchemaCodecs.Proofs.Declaration.Building
import SchemaCodecs.Proofs.Order.Sorting
import SchemaCodecs.Proofs.Schema.Classification
import SchemaCodecs.Proofs.Value.Sameness

namespace SchemaCodecs

variable {config : Config} {document : Value} {compilation : Compilation}

/-- The result of a compilation, given what was left out and the sorted declarations. -/
def Compilation.ofStages (notices : List Notice) (sorted : Order.Sorted) : Compilation where
  declarations := sorted.declarations
  diagnostics := notices.filterMap Notice.diagnostic? ++ sorted.cycles.map cycleDiagnostic ++
    danglingDiagnostics sorted.declarations
  cycles := sorted.cycles

/-- The results of the stages of a compilation. -/
structure Stages (config : Config) (document : Value) (compilation : Compilation) where
  /-- The classified schemas. -/
  components : List Schema.Component
  /-- The declarations built from them. -/
  declarations : List Declaration
  /-- The declarations in order. -/
  sorted : Order.Sorted
  /-- The document was accepted. -/
  checked : checkDocument document = .ok document
  /-- The schemas are those of the document. -/
  classified : Schema.components document = .ok components
  /-- The declarations are those of the schemas. -/
  built : (Declaration.buildAll config components).outcome = .ok declarations
  /-- They were sorted. -/
  sort_eq : Order.sort declarations = .ok sorted
  /-- The result is what the stages have given. -/
  result_eq : compilation = .ofStages (Declaration.buildAll config components).trace sorted

/-- Classifying writes to the log besides. -/
theorem outcome_classifyDocument (document : Value) :
    (classifyDocument document).outcome = Schema.components document := by
  cases h : Schema.components document <;>
    simp [classifyDocument, h, bind, Traced.bind, liftM, monadLift, MonadLift.monadLift,
      Traced.ofExcept, debug, Traced.note, pure]

/-- Building declarations keeps what was left out. -/
theorem outcome_buildDeclarations (config : Config) (components : List Schema.Component) :
    (buildDeclarations config components).outcome =
      (Declaration.buildAll config components).outcome.map fun declarations =>
        (declarations, (Declaration.buildAll config components).trace) := by
  cases h : (Declaration.buildAll config components).outcome <;>
    simp [buildDeclarations, h, bind, Traced.bind, Traced.mapTrace, debug, Traced.note, pure,
      Except.map]

/-- Sorting writes to the log besides. -/
theorem outcome_sortDeclarations (declarations : List Declaration) :
    (sortDeclarations declarations).outcome = Order.sort declarations := by
  cases h : Order.sort declarations <;>
    simp [sortDeclarations, h, bind, Traced.bind, liftM, monadLift, MonadLift.monadLift,
      Traced.ofExcept, Traced.note, pure]

/-- A result is given unless strict mode does not tolerate it. -/
theorem outcome_tolerated (strict : Bool) (result : Compilation) :
    (if strict = true then
      match firstIntolerable? result.diagnostics with
      | some d => do
        Traced.fail (.strict d)
        pure result
      | none => pure result
    else pure result : Logged Compilation).outcome = .ok compilation ↔
      compilation = result ∧ (strict = true → firstIntolerable? compilation.diagnostics = none) := by
  have hpure : (pure result : Logged Compilation).outcome = .ok result := rfl
  split
  · next hstrict =>
    split
    · next d hd =>
      refine iff_of_false ?_ ?_
      · rintro ⟨⟩
      · rintro ⟨rfl, hnone⟩
        rw [hd] at hnone
        cases hnone hstrict
    · next hnone =>
      rw [hpure, Except.ok.injEq]
      refine ⟨?_, fun h => h.1.symm⟩
      rintro rfl
      exact ⟨rfl, fun _ => hnone⟩
  · next hstrict =>
    rw [hpure, Except.ok.injEq]
    exact ⟨fun h => ⟨h.symm, fun htrue => absurd htrue hstrict⟩, fun h => h.1.symm⟩

/-- **Stages.**  A compilation gives a result just when all stages do and strict mode tolerates the
reports. -/
theorem compile_outcome_eq_ok_iff :
    (compile config document).outcome = .ok compilation ↔
      Nonempty (Stages config document compilation) ∧
        (config.strict.isTruthy = true → firstIntolerable? compilation.diagnostics = none) := by
  simp only [compile, Traced.outcome_bind_eq_ok_iff, outcome_classifyDocument,
    outcome_buildDeclarations, outcome_sortDeclarations]
  constructor
  · rintro ⟨checked, hchecked, components, hclassified, ⟨declarations, notices⟩, hbuilt, sorted,
      hsort, -, -, hrest⟩
    obtain rfl := eq_of_checkDocument hchecked
    obtain ⟨built, hbuildAll, heq⟩ := exists_of_map_eq_ok hbuilt
    obtain ⟨rfl, rfl⟩ := Prod.mk.inj heq
    obtain ⟨hresult, htolerated⟩ := (outcome_tolerated _ (.ofStages _ sorted)).1 hrest
    exact ⟨⟨⟨components, _, sorted, hchecked, hclassified, hbuildAll, hsort, hresult⟩⟩, htolerated⟩
  · rintro ⟨⟨stages⟩, htolerated⟩
    refine ⟨document, stages.checked, stages.components, stages.classified,
      (stages.declarations, (Declaration.buildAll config stages.components).trace), ?_,
      stages.sorted, stages.sort_eq, (), rfl, ?_⟩
    · rw [stages.built]
      rfl
    · exact (outcome_tolerated _ (.ofStages _ stages.sorted)).2 ⟨stages.result_eq, htolerated⟩

/-! ## Names -/

/-- Keys that pass the check for different keys are different. -/
theorem nodup_of_allDistinctBy {keys : List Scalar} (h : allDistinctBy Scalar.same keys = true) :
    keys.Nodup := by
  induction keys with
  | nil => exact List.nodup_nil
  | cons key rest ih =>
    rw [allDistinctBy, Bool.and_eq_true, Bool.not_eq_true', List.any_eq_false] at h
    obtain ⟨hkey, hrest⟩ := h
    refine List.nodup_cons.2 ⟨fun hmem => hkey key hmem (Scalar.same_refl key), ih hrest⟩

/-- Declarations that can be sorted have different names. -/
theorem nodup_names_of_sort {declarations : List Declaration} {sorted : Order.Sorted}
    (h : Order.sort declarations = .ok sorted) : (declarations.map (·.name)).Nodup := by
  rw [Order.sort, bind_eq_ok_iff] at h
  obtain ⟨references, -, h⟩ := h
  split at h
  · next hdistinct => exact nodup_of_allDistinctBy hdistinct
  · cases h

/-- Declarations are built from components. -/
theorem Stages.exists_component (stages : Stages config document compilation) {d : Declaration}
    (hd : d ∈ stages.declarations) : ∃ component ∈ stages.components,
      Declaration.declared? config component = some d := by
  obtain ⟨-, heq⟩ := Declaration.buildAll_outcome_eq_ok_iff.1 stages.built
  rw [heq] at hd
  exact List.mem_filterMap.1 hd

/-- The declarations of a document with texts for names are told apart by their names. -/
theorem Stages.namedApart (stages : Stages config document compilation)
    (htexts : Schema.HasTextNames document) : Order.NamedApart stages.declarations where
  text d hd := by
    obtain ⟨component, hcomponent, hdeclared⟩ := stages.exists_component hd
    obtain ⟨table, htable, -⟩ := (Schema.components_eq_ok_iff _ _).1 stages.classified
    have hname : component.name ∈ table.map (·.1) := by
      rw [← Schema.names_of_components htable stages.classified]
      exact List.mem_map_of_mem hcomponent
    obtain ⟨entry, hentry, hkey⟩ := List.mem_map.1 hname
    obtain ⟨name, htext⟩ := htexts table htable entry hentry
    exact ⟨name, by rw [Declaration.name_of_declared? hdeclared, ← hkey, htext]⟩
  apart := nodup_names_of_sort stages.sort_eq

/-- Sorting keeps the declarations. -/
theorem Stages.perm (stages : Stages config document compilation)
    (htexts : Schema.HasTextNames document) :
    compilation.declarations.Perm stages.declarations := by
  obtain ⟨arrangement⟩ :=
    Order.exists_arrangement_of_sort (stages.namedApart htexts) stages.sort_eq
  have heq : compilation.declarations = stages.sorted.declarations :=
    congrArg Compilation.declarations stages.result_eq
  rw [heq]
  exact arrangement.perm_declarations

/-- **Names.**  The declarations of a compilation are told apart by their names. -/
theorem Stages.namedApart_compilation (stages : Stages config document compilation)
    (htexts : Schema.HasTextNames document) : Order.NamedApart compilation.declarations where
  text d hd := (stages.namedApart htexts).text d ((stages.perm htexts).mem_iff.1 hd)
  apart := ((stages.perm htexts).map _).nodup_iff.2 (stages.namedApart htexts).apart

end SchemaCodecs
