/-
# Strictness

Strict mode has no part in what a compilation makes; it only decides afterwards whether the result is
given.  So a document that is compiled without it is compiled to the same result in strict mode, or
strict mode refuses the first report that it does not tolerate; there is no third way.

* `outcome_compile_strictly` : the outcome of a compilation in strict mode;
* `outcome_generate_strictly` : the same module is made, or a report is refused.
-/
import SchemaCodecs.Proofs.Compile.Stages

namespace SchemaCodecs

/-- The same configuration in strict mode. -/
def Config.strictly (config : Config) : Config :=
  { config with strict := .bool true }

section Strictness

variable {config : Config} {document : Value}

@[simp] theorem buildAll_strictly (config : Config) :
    Declaration.buildAll config.strictly = Declaration.buildAll config :=
  Declaration.buildAll_congr (fun _ => rfl) rfl

/-- The stages before the reports are the same in strict mode. -/
def Stages.strictly {compilation : Compilation} (stages : Stages config document compilation) :
    Stages config.strictly document compilation where
  components := stages.components
  declarations := stages.declarations
  sorted := stages.sorted
  checked := stages.checked
  classified := stages.classified
  built := by rw [buildAll_strictly, stages.built]
  sort_eq := stages.sort_eq
  result_eq := by
    rw [buildAll_strictly]
    exact stages.result_eq

/-- A report that strict mode does not tolerate takes the place of the result. -/
theorem Stages.outcome_of_intolerable {compilation : Compilation} {d : Diagnostic}
    (stages : Stages config document compilation) (hstrict : config.strict.isTruthy = true)
    (hfirst : firstIntolerable? compilation.diagnostics = some d) :
    (compile config document).outcome = .error (.strict d) := by
  obtain ⟨components, declarations, sorted, hchecked, hclassified, hbuilt, hsort, rfl⟩ := stages
  rw [Compilation.ofStages] at hfirst
  simp only [compile, Traced.outcome_bind, Traced.outcome_lift, outcome_classifyDocument,
    outcome_buildDeclarations, outcome_sortDeclarations, hchecked, hclassified, hbuilt, hsort,
    Except.bind, Except.map, hstrict, hfirst, if_true]
  rfl

/-- A document that is compiled is compiled in strict mode to the same result, unless a report on it
is refused. -/
theorem outcome_compile_strictly {compilation : Compilation}
    (h : (compile config document).outcome = .ok compilation) :
    (compile config.strictly document).outcome = .ok compilation ∨
      ∃ d ∈ compilation.diagnostics,
        (compile config.strictly document).outcome = .error (.strict d) := by
  obtain ⟨⟨stages⟩, -⟩ := compile_outcome_eq_ok_iff.1 h
  cases hfirst : firstIntolerable? compilation.diagnostics with
  | none => exact Or.inl (compile_outcome_eq_ok_iff.2 ⟨⟨stages.strictly⟩, fun _ => hfirst⟩)
  | some d =>
    exact Or.inr ⟨d, List.mem_of_find?_eq_some hfirst,
      stages.strictly.outcome_of_intolerable rfl hfirst⟩

/-- **Strictness.**  A document whose module is made without strict mode has the same module in strict
mode, or one of the reports on it is refused. -/
theorem outcome_generate_strictly {text : Text}
    (h : (generate config document).outcome = .ok text) :
    (generate config.strictly document).outcome = .ok text ∨
      ∃ d, (generate config.strictly document).outcome = .error (.strict d) := by
  rw [generate, Traced.outcome_bind_eq_ok_iff] at h
  obtain ⟨compilation, hcompile, hprint⟩ := h
  rw [generate, Traced.outcome_bind]
  rcases outcome_compile_strictly hcompile with hstrict | ⟨d, -, hstrict⟩
  · rw [hstrict]
    exact Or.inl hprint
  · rw [hstrict]
    exact Or.inr ⟨d, rfl⟩

end Strictness

end SchemaCodecs
