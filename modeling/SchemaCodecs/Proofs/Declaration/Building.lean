/-
# Building component by component

Every component schema is built on its own: whether it gives a declaration, and what is noted about
it, does not depend on the others.  Only a note that cannot be shown, or a test for ignored schemas
that cannot be made, ends the building.

* `declared?`, `noticesOn` : what a single component gives;
* `buildAll_outcome_eq_ok_iff` : when building succeeds, and with which declarations;
* `buildAll_of_isBuildable`, `exists_component_of_mem_trace` : what is noted.
-/
import SchemaCodecs.Declaration.Build

namespace SchemaCodecs.Declaration

open Schema

variable {config : Config}

/-! ## One component -/

/-- The declaration that a component gives, if it gives one. -/
def declared? (config : Config) (component : Component) : Option Declaration :=
  match config.ignores component.name with
  | .ok false => (build config component.name (some component.body)).2.toOption
  | _ => none

/-- The notes on what is left out of a component, or on the component itself. -/
def buildNotices (config : Config) (component : Component) : List Notice :=
  let (notices, result) := build config component.name (some component.body)
  match result with
  | .ok _ => notices
  | .error cause => notices ++ [.component component.name cause]

/-- The notes on a component. -/
def noticesOn (config : Config) (component : Component) : List Notice :=
  match config.ignores component.name with
  | .ok true => [.ignored component.name]
  | _ => buildNotices config component

/-- A component can be tested for being ignored, and all notes on it can be shown. -/
def IsBuildable (config : Config) (component : Component) : Prop :=
  (∃ ignored, config.ignores component.name = .ok ignored) ∧
    ∀ notice ∈ noticesOn config component, notice.isHidden = false

/-- Building only depends on which schemas are left out and whether declarations are exported. -/
theorem buildAll_congr {other : Config} (ignores : ∀ name, other.ignores name = config.ignores name)
    (exports : other.exportDeclarations = config.exportDeclarations) :
    buildAll other = buildAll config := by
  have hbuild : build other = build config := by
    funext name body
    unfold build
    rw [exports]
  funext components
  induction components with
  | nil => rfl
  | cons component rest ih => rw [buildAll, buildAll, ignores, hbuild, ih]

/-! ## Notes -/

/-- Notes that can all be shown are noted. -/
theorem noteAll_of_shown {notices : List Notice} (h : ∀ notice ∈ notices, notice.isHidden = false) :
    noteAll notices = ⟨notices, .ok ()⟩ := by
  induction notices with
  | nil => rfl
  | cons notice rest ih =>
    obtain ⟨hnotice, hrest⟩ := List.forall_mem_cons.1 h
    simp only [noteAll, hnotice, Bool.false_eq_true, if_false, ih hrest, bind, Traced.bind,
      Traced.note, List.singleton_append]

/-- Notes are made only if they can all be shown. -/
theorem shown_of_noteAll {notices : List Notice} (h : (noteAll notices).outcome = .ok ()) :
    ∀ notice ∈ notices, notice.isHidden = false := by
  induction notices with
  | nil => simp
  | cons notice rest ih =>
    rw [noteAll] at h
    cases hnotice : notice.isHidden with
    | true =>
      rw [if_pos hnotice] at h
      cases h
    | false =>
      rw [if_neg (by simp [hnotice]), Traced.outcome_bind_eq_ok_iff] at h
      obtain ⟨-, -, hrest⟩ := h
      exact List.forall_mem_cons.2 ⟨hnotice, ih hrest⟩

/-- A note that cannot be shown ends the work. -/
theorem noteAll_of_hidden {notices : List Notice} {notice : Notice} (mem : notice ∈ notices)
    (h : notice.isHidden = true) :
    (noteAll notices).outcome = .error (.invalid .longInteger) := by
  induction notices with
  | nil => cases mem
  | cons first rest ih =>
    rw [noteAll]
    cases hfirst : first.isHidden with
    | true => rfl
    | false =>
      have hrest : notice ∈ rest := by
        rcases List.mem_cons.1 mem with rfl | hrest
        · rw [h] at hfirst
          cases hfirst
        · exact hrest
      rw [if_neg Bool.false_ne_true, Traced.outcome_bind_of_ok rfl]
      exact ih hrest

/-- Only the given notes are made. -/
theorem mem_of_mem_noteAll {notices : List Notice} {notice : Notice}
    (h : notice ∈ (noteAll notices).trace) : notice ∈ notices := by
  induction notices with
  | nil => cases h
  | cons first rest ih =>
    rw [noteAll] at h
    split at h
    · cases h
    · rcases Traced.mem_trace_bind h with hfirst | ⟨-, -, hrest⟩
      · obtain rfl := List.mem_singleton.1 hfirst
        exact List.mem_cons_self
      · exact List.mem_cons_of_mem _ (ih hrest)

/-! ## All components -/

/-- What is noted, also by a run that fails, is a note on one of the components. -/
theorem exists_component_of_mem_trace {components : List Component} {notice : Notice}
    (h : notice ∈ (buildAll config components).trace) :
    ∃ component ∈ components, notice ∈ noticesOn config component := by
  induction components with
  | nil => cases h
  | cons component rest ih =>
    suffices hcases : notice ∈ noticesOn config component ∨ notice ∈ (buildAll config rest).trace by
      rcases hcases with hown | hrest
      · exact ⟨component, List.mem_cons_self, hown⟩
      · obtain ⟨other, hother, hnoted⟩ := ih hrest
        exact ⟨other, List.mem_cons_of_mem _ hother, hnoted⟩
    rw [buildAll] at h
    rcases Traced.mem_trace_bind h with hnone | ⟨ignored, htest, h⟩
    · cases hnone
    have hignored : config.ignores component.name = .ok ignored := htest
    rw [noticesOn, hignored]
    cases ignored with
    | true =>
      rw [if_pos rfl] at h
      rcases Traced.mem_trace_bind h with hown | ⟨-, -, hrest⟩
      · exact Or.inl hown
      · exact Or.inr hrest
    | false =>
      rw [if_neg Bool.false_ne_true] at h
      simp only [buildNotices]
      generalize build config component.name (some component.body) = built at h ⊢
      obtain ⟨notices, result⟩ := built
      rcases Traced.mem_trace_bind h with hnoted | ⟨-, -, h⟩
      · have hown := mem_of_mem_noteAll hnoted
        cases result with
        | ok declaration => exact Or.inl hown
        | error cause => exact Or.inl (List.mem_append_left _ hown)
      · cases result with
        | ok declaration =>
          rcases Traced.mem_trace_bind h with hrest | ⟨_, _, hnone⟩
          · exact Or.inr hrest
          · cases hnone
        | error cause =>
          rcases Traced.mem_trace_bind h with hnoted | ⟨-, -, hrest⟩
          · exact Or.inl (List.mem_append_right _ (mem_of_mem_noteAll hnoted))
          · exact Or.inr hrest

/-- Building one component, then the others. -/
theorem buildAll_cons {component : Component} (h : IsBuildable config component)
    (rest : List Component) :
    buildAll config (component :: rest) =
      ⟨noticesOn config component ++ (buildAll config rest).trace,
        (buildAll config rest).outcome.map fun declarations =>
          (declared? config component).toList ++ declarations⟩ := by
  obtain ⟨⟨ignored, hignored⟩, hshown⟩ := h
  have htest : (liftM (config.ignores component.name) : Traced Notice Bool)
      = ⟨[], .ok ignored⟩ := by
    rw [hignored]
    rfl
  have hmap : ∀ outcome : Except Fault (List Declaration),
      (outcome.map fun declarations => [] ++ declarations) = outcome := by
    rintro (_ | _) <;> rfl
  rw [buildAll, Traced.bind_of_ok htest]
  -- Either the component is ignored, or what is built from it decides how it goes on.
  cases ignored with
  | true =>
    rw [noticesOn, declared?, hignored]
    simp only [if_true, Option.toList_none, hmap]
    rfl
  | false =>
    rw [noticesOn, hignored] at hshown
    rw [noticesOn, declared?, hignored]
    simp only [Bool.false_eq_true, if_false, List.nil_append]
    simp only [buildNotices] at hshown ⊢
    generalize build config component.name (some component.body) = built at hshown ⊢
    obtain ⟨notices, result⟩ := built
    cases result with
    | ok declaration =>
      simp only at hshown ⊢
      rw [Traced.bind_of_ok (noteAll_of_shown hshown), Traced.bind_pure_eq]
      rfl
    | error cause =>
      simp only at hshown ⊢
      obtain ⟨hnotices, hcomponent⟩ := List.forall_mem_append.1 hshown
      rw [Traced.bind_of_ok (noteAll_of_shown hnotices),
        Traced.bind_of_ok (noteAll_of_shown hcomponent), ← List.append_assoc]
      simp only [Except.toOption, Option.toList_none, hmap]

/-- A component that is built can be built. -/
theorem isBuildable_of_buildAll {component : Component} {rest : List Component}
    {declarations : List Declaration}
    (h : (buildAll config (component :: rest)).outcome = .ok declarations) :
    IsBuildable config component ∧ ∃ others, (buildAll config rest).outcome = .ok others := by
  rw [buildAll, Traced.outcome_bind_eq_ok_iff] at h
  obtain ⟨ignored, htest, h⟩ := h
  have hignored : config.ignores component.name = .ok ignored := htest
  have hshown : (∀ notice ∈ noticesOn config component, notice.isHidden = false) ∧
      ∃ others, (buildAll config rest).outcome = .ok others := by
    rw [noticesOn, hignored]
    cases ignored with
    | true =>
      simp only [if_true, Traced.outcome_bind_eq_ok_iff] at h
      obtain ⟨-, -, hrest⟩ := h
      exact ⟨by simp [Notice.isHidden, Notice.cause?], _, hrest⟩
    | false =>
      simp only [Bool.false_eq_true, if_false] at h
      simp only [buildNotices]
      generalize build config component.name (some component.body) = built at h ⊢
      obtain ⟨notices, result⟩ := built
      simp only [Traced.outcome_bind_eq_ok_iff] at h
      obtain ⟨⟨⟩, hnotices, h⟩ := h
      have hshown := shown_of_noteAll hnotices
      cases result with
      | ok declaration =>
        simp only [Traced.outcome_bind_eq_ok_iff] at h
        obtain ⟨others, hrest, -⟩ := h
        exact ⟨hshown, others, hrest⟩
      | error cause =>
        simp only [Traced.outcome_bind_eq_ok_iff] at h
        obtain ⟨⟨⟩, hcomponent, hrest⟩ := h
        exact ⟨List.forall_mem_append.2 ⟨hshown, shown_of_noteAll hcomponent⟩, _, hrest⟩
  exact ⟨⟨⟨ignored, hignored⟩, hshown.1⟩, hshown.2⟩

/-- What is noted about components that can all be built, and the declarations they give. -/
theorem buildAll_of_isBuildable {components : List Component}
    (h : ∀ component ∈ components, IsBuildable config component) :
    buildAll config components =
      ⟨components.flatMap (noticesOn config), .ok (components.filterMap (declared? config))⟩ := by
  induction components with
  | nil => rfl
  | cons component rest ih =>
    obtain ⟨hcomponent, hrest⟩ := List.forall_mem_cons.1 h
    rw [buildAll_cons hcomponent, ih hrest, List.flatMap_cons, List.filterMap_cons]
    cases declared? config component <;> rfl

/-- **Building.**  Building succeeds just when each component can be built. -/
theorem buildAll_outcome_eq_ok_iff {components : List Component} {declarations : List Declaration} :
    (buildAll config components).outcome = .ok declarations ↔
      (∀ component ∈ components, IsBuildable config component) ∧
        declarations = components.filterMap (declared? config) := by
  constructor
  · intro h
    have hbuildable : ∀ component ∈ components, IsBuildable config component := by
      induction components generalizing declarations with
      | nil => simp
      | cons component rest ih =>
        obtain ⟨hcomponent, others, hrest⟩ := isBuildable_of_buildAll h
        exact List.forall_mem_cons.2 ⟨hcomponent, ih hrest⟩
    rw [buildAll_of_isBuildable hbuildable] at h
    exact ⟨hbuildable, (Except.ok.inj h).symm⟩
  · rintro ⟨hbuildable, rfl⟩
    rw [buildAll_of_isBuildable hbuildable]

/-! ## Names -/

/-- What is built from a component has its name. -/
theorem name_of_build {name : Scalar} {node : Option Node} {d : Declaration}
    (h : (build config name node).2 = .ok d) : d.name = name := by
  unfold build at h
  split at h
  · cases h
  · cases h
  · cases h
  · obtain ⟨type, -, rfl⟩ := exists_of_map_eq_ok h
    rfl

/-- A declaration has the name of its component. -/
theorem name_of_declared? {component : Component} {d : Declaration}
    (h : declared? config component = some d) : d.name = component.name := by
  unfold declared? at h
  split at h
  · exact name_of_build (eq_ok_of_toOption h)
  · cases h

end SchemaCodecs.Declaration
