/-
# Every component schema is accounted for

One of three things becomes of a component schema: it is left out on request, it is declared, or it
is refused with a report at its place.  Everything that a compilation reports comes from a component
schema that is not left out, from a declaration, or from a cycle of declarations.

* `Node.HasDeclaredShape` : the schemas that can be declared;
* `ledger` : the reports on component schemas, each with the schema it comes from;
* `Disposed` : the three things that can become of a component schema;
* `Accounting` : exactly one of them does, and nothing else is declared or reported.
-/
import SchemaCodecs.Proofs.Compile.Containment
import SchemaCodecs.Proofs.Declaration.Failing
import SchemaCodecs.Proofs.Order.Groups

namespace SchemaCodecs

open Schema

/-! ## Schemas that can be declared -/

namespace Schema.Node

/-- A node is an object, a primitive, or a text whose enumeration, if it has one, holds texts only. -/
def HasDeclaredShape : Node → Prop
  | object _ _ _ _ _ | primitive _ _ | string _ none => True
  | string _ (some values) => ∀ v ∈ values, ∃ s, v = .text s
  | _ => False

/-- A list of values can be read as texts if all of them are texts. -/
theorem exists_mapM_text?_iff (values : List Value) :
    (∃ texts, values.mapM Value.text? = some texts) ↔ ∀ v ∈ values, ∃ s, v = .text s := by
  induction values with
  | nil => simp
  | cons v rest ih =>
    rw [List.forall_mem_cons, ← ih]
    have htext : (∃ s, v.text? = some s) ↔ ∃ s, v = .text s := by
      constructor
      · rintro ⟨s, hs⟩
        exact ⟨s, Value.eq_text_of_text? hs⟩
      · rintro ⟨s, rfl⟩
        exact ⟨s, rfl⟩
    rw [← htext]
    simp [Option.bind_eq_some_iff]

/-- A text schema has a type if its enumeration holds texts only. -/
theorem exists_resolveString_iff (path : Text) (enumeration : Option (List Value)) :
    (∃ type, resolveString path enumeration = .ok type) ↔
      (string path enumeration).HasDeclaredShape := by
  cases enumeration with
  | none => simp [resolveString, HasDeclaredShape]
  | some values =>
    rw [HasDeclaredShape, ← exists_mapM_text?_iff]
    cases htexts : values.mapM Value.text? <;> simp [resolveString, htexts]

/-- A reference or an array has another shape. -/
theorem isDeclarable_of_hasDeclaredShape {node : Node} (h : node.HasDeclaredShape) :
    node.isDeclarable = true := by
  cases node with
  | reference | array => exact h.elim
  | object | primitive | string | unclassified | bare => rfl

/-- Among the nodes that can be declared at all, those of these shapes have a type. -/
theorem exists_resolve_iff {node : Node} (declarable : node.isDeclarable = true) :
    (∃ type, node.resolve.2 = .ok type) ↔ node.HasDeclaredShape := by
  cases node with
  | reference | array => cases declarable
  | object path properties required allOf oneOf =>
    exact iff_of_true (exists_resolve_object path properties required allOf oneOf) trivial
  | primitive path kind => exact iff_of_true ⟨.primitive kind, by rw [resolve]⟩ trivial
  | string path enumeration =>
    rw [resolve]
    exact exists_resolveString_iff path enumeration
  | unclassified | bare => simp [resolve, HasDeclaredShape]

/-- A node of another shape has no nodes that its type is made from, so nothing is noted below it. -/
theorem resolve_of_not_hasDeclaredShape {node : Node} (declarable : node.isDeclarable = true)
    (h : ¬ node.HasDeclaredShape) :
    ∃ cause, node.resolve = ([], .error cause) ∧ cause.path = node.path := by
  have hnone : ∀ type, node.resolve.2 ≠ .ok type := fun type htype =>
    h ((exists_resolve_iff declarable).1 ⟨type, htype⟩)
  have hnotices : node.resolve.1 = [] := by
    cases node with
    | reference | array => cases declarable
    | object => exact absurd trivial h
    | primitive | string | unclassified | bare => rw [resolve]
  cases hcause : node.resolve.2 with
  | ok type => exact absurd hcause (hnone type)
  | error cause =>
    exact ⟨cause, Prod.ext hnotices hcause, path_of_resolve_eq_error declarable hcause⟩

end Schema.Node

/-! ## What is noted about a component as a whole -/

/-- Whether a notice is about a component as a whole, and not about something inside of it. -/
def Notice.isOnWhole : Notice → Bool
  | component _ _ => true
  | _ => false

namespace Schema.Node

/-- What is noted with the type of a node is about things inside of the component. -/
theorem isOnWhole_of_resolve (node : Node) {notice : Notice} (h : notice ∈ node.resolve.1) :
    notice.isOnWhole = false := by
  rw [notices_resolve, List.mem_filterMap] at h
  obtain ⟨entry, -, hnotice⟩ := h
  cases entry with
  | property | member =>
    obtain ⟨cause, -, rfl⟩ := Option.map_eq_some_iff.1 hnotice
    rfl

end Schema.Node

namespace Declaration

variable {config : Config} {component : Component}

/-- A component of a shape that can be declared is declared, and what is noted is inside of it. -/
theorem of_hasDeclaredShape (considered : config.ignores component.name = .ok false)
    (h : component.body.HasDeclaredShape) :
    (∃ d, declared? config component = some d) ∧
      ∀ notice ∈ noticesOn config component, notice.isOnWhole = false := by
  have declarable := Node.isDeclarable_of_hasDeclaredShape h
  obtain ⟨type, htype⟩ := (Node.exists_resolve_iff declarable).2 h
  have hbuild := @build_of_isDeclarable config component.name _ declarable
  rw [htype] at hbuild
  refine ⟨⟨_, by rw [declared?, considered, hbuild]; rfl⟩, fun notice hnotice => ?_⟩
  rw [noticesOn, considered] at hnotice
  simp only [buildNotices, hbuild, Except.map] at hnotice
  exact Node.isOnWhole_of_resolve component.body hnotice

/-- Any other component is not declared, and only this is noted about it. -/
theorem of_not_hasDeclaredShape (considered : config.ignores component.name = .ok false)
    (h : ¬ component.body.HasDeclaredShape) :
    declared? config component = none ∧ ∃ cause : Unsupported,
      noticesOn config component = [.component component.name cause] ∧
        cause.path = component.body.path := by
  rw [declared?, noticesOn, considered]
  cases hdeclarable : component.body.isDeclarable with
  | false =>
    obtain ⟨reason, hbuild⟩ := @build_of_not_isDeclarable config component.name _ hdeclarable
    simp only [buildNotices, hbuild]
    exact ⟨rfl, _, rfl, rfl⟩
  | true =>
    obtain ⟨cause, hresolve, hpath⟩ := Node.resolve_of_not_hasDeclaredShape hdeclarable h
    have hbuild := @build_of_isDeclarable config component.name _ hdeclarable
    rw [hresolve] at hbuild
    simp only [buildNotices, hbuild]
    exact ⟨rfl, cause, rfl, hpath⟩

end Declaration

/-! ## Reports with their origin -/

/-- A report on a component schema, with the schema it comes from. -/
structure Report where
  /-- The name of the schema. -/
  name : Scalar
  /-- Whether it is about the schema as a whole, and not about something inside of it. -/
  onWhole : Bool
  /-- What is wrong, and where. -/
  cause : Unsupported
  deriving DecidableEq

/-- The diagnostic that a report amounts to. -/
def Report.diagnostic (report : Report) : Diagnostic :=
  ⟨.unsupportedShape, report.cause.reason, report.cause.path⟩

/-- The report on a component that a notice amounts to, unless the component is left out. -/
def Report.ofNotice? (name : Scalar) (notice : Notice) : Option Report :=
  notice.cause?.map fun cause => ⟨name, notice.isOnWhole, cause⟩

/-- The reports on a component. -/
def componentReports (config : Config) (component : Component) : List Report :=
  (Declaration.noticesOn config component).filterMap (Report.ofNotice? component.name)

/-- The reports on an entry of the table of schemas. -/
def entryReports (config : Config) (entry : Scalar × Value) : List Report :=
  match classify (Reference.toSchema entry.1.display) entry.2 with
  | .ok body => componentReports config ⟨entry.1, body⟩
  | .error _ => []

/-- The reports on the entries of the table of schemas, in order. -/
def ledger (config : Config) (table : Entries) : List Report :=
  table.flatMap (entryReports config)

section Reports

variable {config : Config} {document : Value} {table : Entries} {compilation : Compilation}
  {entry : Scalar × Value}

/-- The reports on an entry are those on its component. -/
theorem entryReports_eq {component : Component} (h : IsComponentOf entry component) :
    entryReports config entry = componentReports config component := by
  obtain ⟨name, body⟩ := component
  obtain ⟨-, rfl, hbody⟩ := h
  rw [entryReports, hbody]

/-- A report on an entry has its name. -/
theorem name_of_mem_entryReports {report : Report} (h : report ∈ entryReports config entry) :
    report.name = entry.1 := by
  unfold entryReports at h
  split at h
  · obtain ⟨notice, -, hreport⟩ := List.mem_filterMap.1 h
    obtain ⟨cause, -, rfl⟩ := Option.map_eq_some_iff.1 hreport
    rfl
  · cases h

/-- The reports of an entry are found in the ledger by its name. -/
theorem filter_ledger (apart : (table.map (·.1)).Nodup) (hentry : entry ∈ table) :
    (ledger config table).filter (fun report => report.name = entry.1)
      = entryReports config entry := by
  have hothers : ∀ others : Entries, entry.1 ∉ others.map (·.1) →
      (others.flatMap (entryReports config)).filter (fun report => report.name = entry.1)
        = [] := by
    intro others hnotMem
    refine List.filter_eq_nil_iff.2 fun report hreport => ?_
    obtain ⟨other, hother, hreport⟩ := List.mem_flatMap.1 hreport
    have hname := name_of_mem_entryReports hreport
    have hne : report.name ≠ entry.1 := fun heq =>
      hnotMem (List.mem_map.2 ⟨other, hother, hname.symm.trans heq⟩)
    simpa using hne
  obtain ⟨before, after, rfl⟩ := List.append_of_mem hentry
  rw [List.map_append, List.map_cons, List.nodup_middle, List.nodup_cons, List.mem_append,
    not_or] at apart
  have hown : (entryReports config entry).filter (fun report => report.name = entry.1)
      = entryReports config entry :=
    List.filter_eq_self.2 fun report hreport => by simpa using name_of_mem_entryReports hreport
  rw [ledger, List.flatMap_append, List.flatMap_cons, List.filter_append, List.filter_append,
    hothers before apart.1.1, hothers after apart.1.2, hown, List.nil_append, List.append_nil]

/-- The reports amount to the diagnostics for what was noted. -/
theorem map_diagnostic_componentReports (config : Config) (component : Component) :
    (componentReports config component).map Report.diagnostic
      = (Declaration.noticesOn config component).filterMap Notice.diagnostic? := by
  rw [componentReports, List.map_filterMap]
  congr 1
  funext notice
  rw [Report.ofNotice?, Notice.diagnostic?, Option.map_map]
  rfl

/-- The ledger amounts to the diagnostics for the components of the entries. -/
theorem map_diagnostic_ledger {components : List Component}
    (h : List.Forall₂ IsComponentOf table components) :
    (ledger config table).map Report.diagnostic
      = (components.flatMap (Declaration.noticesOn config)).filterMap Notice.diagnostic? := by
  induction h with
  | nil => rfl
  | cons hfirst _ ih =>
    rw [ledger, List.flatMap_cons, List.map_append, ← ledger, ih, entryReports_eq hfirst,
      map_diagnostic_componentReports, List.flatMap_cons, List.filterMap_append]

/-! ## Left out, declared or refused -/

/-- What becomes of a component schema. -/
inductive Disposition where
  /-- The configuration leaves it out. -/
  | leftOut
  /-- It is declared. -/
  | declared
  /-- It has no shape that can be declared. -/
  | refused
  deriving DecidableEq

/-- An entry of the table of schemas has been dealt with in the given way.  Left out, it leaves no
trace.  Declared, it has a shape for this and is declared once.  Refused, it is not declared, and the
only report on it is about the schema as a whole and names its place, as no other such report does. -/
def Disposed (config : Config) (ignored : List Text) (table : Entries)
    (compilation : Compilation) (entry : Scalar × Value) : Disposition → Prop
  | .leftOut =>
    (∃ name ∈ ignored, entry.1 = .text name) ∧
      entry.1 ∉ compilation.declarations.map (·.name) ∧
        (ledger config table).filter (fun report => report.name = entry.1) = []
  | .declared =>
    (∃ body, classify (Reference.toSchema entry.1.display) entry.2 = .ok body ∧
        body.HasDeclaredShape) ∧
      (compilation.declarations.map (·.name)).count entry.1 = 1
  | .refused =>
    entry.1 ∉ compilation.declarations.map (·.name) ∧
      ∃ body report, classify (Reference.toSchema entry.1.display) entry.2 = .ok body ∧
        report.onWhole = true ∧ report.cause.path = body.path ∧
          (ledger config table).filter (fun report => report.name = entry.1) = [report] ∧
            (ledger config table).filter
              (fun report => report.onWhole ∧ report.cause.path = body.path) = [report]

/-- An entry is dealt with in one way at most. -/
theorem Disposed.unique {ignored : List Text} {first second : Disposition}
    (hfirst : Disposed config ignored table compilation entry first)
    (hsecond : Disposed config ignored table compilation entry second) : first = second := by
  -- Declared entries are told by the declarations, the others by the reports.
  have hdeclared : Disposed config ignored table compilation entry .declared →
      entry.1 ∈ compilation.declarations.map (·.name) := fun h =>
    List.count_pos_iff.1 (h.2 ▸ Nat.one_pos)
  have hreported : Disposed config ignored table compilation entry .leftOut →
      ¬ Disposed config ignored table compilation entry .refused := by
    rintro ⟨-, -, hnone⟩ ⟨-, body, report, -, -, -, hone, -⟩
    rw [hnone] at hone
    cases hone
  cases first <;> cases second
  case leftOut.leftOut | declared.declared | refused.refused => rfl
  case leftOut.declared => exact absurd (hdeclared hsecond) hfirst.2.1
  case leftOut.refused => exact absurd hsecond (hreported hfirst)
  case declared.leftOut => exact absurd (hdeclared hfirst) hsecond.2.1
  case declared.refused => exact absurd (hdeclared hfirst) hsecond.1
  case refused.leftOut => exact absurd hfirst (hreported hsecond)
  case refused.declared => exact absurd (hdeclared hsecond) hfirst.1

/-- The account of a compilation. -/
structure Accounting (config : Config) (ignored : List Text) (table : Entries)
    (compilation : Compilation) : Prop where
  /-- Each entry is dealt with in exactly one way. -/
  disposed : ∀ entry ∈ table,
    ∃! disposition, Disposed config ignored table compilation entry disposition
  /-- Only entries are declared. -/
  declared : ∀ d ∈ compilation.declarations, ∃ entry ∈ table, d.name = entry.1 ∧
    Disposed config ignored table compilation entry .declared
  /-- Reports on schemas come from entries that are not left out. -/
  reported : ∀ report ∈ ledger config table, ∃ entry ∈ table, report.name = entry.1 ∧
    ¬ Disposed config ignored table compilation entry .leftOut
  /-- All other diagnostics are about declarations. -/
  diagnostics_eq : compilation.diagnostics = (ledger config table).map Report.diagnostic ++
    compilation.cycles.map cycleDiagnostic ++ danglingDiagnostics compilation.declarations
  /-- Cycles consist of declarations. -/
  cycles : ∀ cycle ∈ compilation.cycles, ∀ name ∈ cycle,
    ∃ d ∈ compilation.declarations, d.name = .text name

/-! ## The reports on one entry -/

section Entry

variable {ignored : List Text} {component : Component}

/-- A schema is left out if its name is listed. -/
theorem ignores_of_listed (listed : config.ignoreSchemas = some (.sequence (ignored.map .text)))
    (name : Text) : config.ignores (.text name) = .ok (decide (name ∈ ignored)) := by
  rw [Config.ignores, listed]
  have htext : ∀ s : Text, Value.equals (.text s) (.text name) = decide (s = name) := by
    intro s
    rw [Bool.eq_iff_iff]
    simp [Value.equals, Value.same, Value.isNaN, Scalar.isNaN, Scalar.same, Scalar.integer?]
  simp only [List.any_map, Function.comp_def, htext, Except.ok.injEq]
  rw [Bool.eq_iff_iff, List.any_eq_true, decide_eq_true_iff]
  simp

/-- There is no report on an entry that is left out. -/
theorem entryReports_of_ignored (hof : IsComponentOf entry component)
    (hignored : config.ignores entry.1 = .ok true) : entryReports config entry = [] := by
  rw [← hof.name_eq] at hignored
  rw [entryReports_eq hof, componentReports, Declaration.noticesOn, hignored]
  rfl

/-- The reports on a declared entry are about things inside of it. -/
theorem onWhole_of_declared (hof : IsComponentOf entry component)
    (considered : config.ignores entry.1 = .ok false) (h : component.body.HasDeclaredShape) :
    ∀ report ∈ entryReports config entry, report.onWhole = false := by
  rw [← hof.name_eq] at considered
  rw [entryReports_eq hof]
  intro report hreport
  obtain ⟨notice, hnotice, heq⟩ := List.mem_filterMap.1 hreport
  obtain ⟨cause, -, rfl⟩ := Option.map_eq_some_iff.1 heq
  exact (Declaration.of_hasDeclaredShape considered h).2 notice hnotice

/-- There is one report on a refused entry, about the whole of it and at its place. -/
theorem entryReports_of_refused (hof : IsComponentOf entry component)
    (considered : config.ignores entry.1 = .ok false) (h : ¬ component.body.HasDeclaredShape) :
    ∃ report, entryReports config entry = [report] ∧ report.onWhole = true ∧
      report.cause.path = component.body.path := by
  rw [← hof.name_eq] at considered
  obtain ⟨-, cause, hnotices, hpath⟩ := Declaration.of_not_hasDeclaredShape considered h
  refine ⟨⟨component.name, true, cause⟩, ?_, rfl, hpath⟩
  rw [entryReports_eq hof, componentReports, hnotices]
  rfl

/-- A report on an entry as a whole names its place. -/
theorem path_of_onWhole (hof : IsComponentOf entry component)
    (tested : ∃ result, config.ignores entry.1 = .ok result) {report : Report}
    (hreport : report ∈ entryReports config entry) (honWhole : report.onWhole = true) :
    report.cause.path = Reference.toSchema entry.1.display := by
  obtain ⟨result, hresult⟩ := tested
  cases result with
  | true =>
    rw [entryReports_of_ignored hof hresult] at hreport
    cases hreport
  | false =>
    by_cases hshape : component.body.HasDeclaredShape
    · rw [onWhole_of_declared hof hresult hshape report hreport] at honWhole
      cases honWhole
    · obtain ⟨own, hown, -, hpath⟩ := entryReports_of_refused hof hresult hshape
      rw [hown, List.mem_singleton] at hreport
      rw [hreport, hpath, path_of_classify hof.body_eq]

end Entry

/-! ## The account -/

section Account

variable {ignored : List Text} (schemas : HasSchemas document table)

include schemas

/-- Each entry can be tested for being left out. -/
theorem HasSchemas.exists_ignores
    (listed : config.ignoreSchemas = some (.sequence (ignored.map .text))) (hentry : entry ∈ table) :
    ∃ name, entry.1 = .text name ∧ config.ignores entry.1 = .ok (decide (name ∈ ignored)) := by
  obtain ⟨name, hname⟩ := schemas.text entry hentry
  exact ⟨name, hname, by rw [hname, ignores_of_listed listed]⟩

/-- The reports on whole schemas that name the place of an entry are those on this entry. -/
theorem HasSchemas.filter_ledger_path
    (listed : config.ignoreSchemas = some (.sequence (ignored.map .text)))
    {components : List Component} (hfound : List.Forall₂ IsComponentOf table components)
    (hentry : entry ∈ table) :
    (ledger config table).filter (fun report =>
        report.onWhole ∧ report.cause.path = Reference.toSchema entry.1.display)
      = (entryReports config entry).filter fun report => report.onWhole := by
  rw [← filter_ledger schemas.apart hentry, List.filter_filter]
  refine List.filter_congr fun report hreport => ?_
  obtain ⟨other, hother, hreport⟩ := List.mem_flatMap.1 hreport
  have hname := name_of_mem_entryReports hreport
  cases honWhole : report.onWhole with
  | false => simp
  | true =>
    obtain ⟨component, -, hof⟩ := exists_of_forall₂ hfound hother
    obtain ⟨own, hown, htested⟩ := schemas.exists_ignores listed hother
    obtain ⟨name, hname', -⟩ := schemas.exists_ignores listed hentry
    have hpath := path_of_onWhole hof ⟨_, htested⟩ hreport honWhole
    -- The names are texts, so places are equal only if names are.
    have hplaces : Reference.toSchema other.1.display = Reference.toSchema entry.1.display ↔
        other.1 = entry.1 := by
      rw [hown, hname', Reference.toSchema, Reference.toSchema, Text.append_right_inj]
      exact ⟨fun h => congrArg Scalar.text h, fun h => Scalar.text.inj h⟩
    simp [hpath, hname, hplaces]

variable (h : (compile config document).outcome = .ok compilation)

include h

/-- An entry is among the declared ones if it gives a declaration. -/
theorem HasSchemas.mem_names_iff (hentry : entry ∈ table) :
    entry.1 ∈ compilation.declarations.map (·.name) ↔
      ∃ d, declarationOf config entry = some d := by
  have hperm := (accounts_of_compile schemas h).perm
  constructor
  · intro hmem
    obtain ⟨d, hd, hname⟩ := List.mem_map.1 hmem
    obtain ⟨other, hother, hdeclared⟩ := List.mem_filterMap.1 (hperm.mem_iff.1 hd)
    obtain rfl : other = entry := List.inj_on_of_nodup_map schemas.apart hother hentry
      ((name_of_declarationOf hdeclared).symm.trans hname)
    exact ⟨d, hdeclared⟩
  · rintro ⟨d, hdeclared⟩
    refine List.mem_map.2 ⟨d, hperm.mem_iff.2 ?_, name_of_declarationOf hdeclared⟩
    exact List.mem_filterMap.2 ⟨entry, hentry, hdeclared⟩

theorem HasSchemas.nodup_names : (compilation.declarations.map (·.name)).Nodup :=
  (((accounts_of_compile schemas h).perm.map _).nodup_iff).2 (schemas.namedApart config).apart

/-- A cycle of a compilation consists of names of declarations. -/
theorem HasSchemas.exists_of_mem_cycle {cycle : List Text} (hcycle : cycle ∈ compilation.cycles)
    {name : Text} (hname : name ∈ cycle) :
    ∃ d ∈ compilation.declarations, d.name = .text name := by
  obtain ⟨stages, -, -, -⟩ := exists_stages_of_compile schemas h
  have hapart := stages.namedApart schemas.hasTextNames
  obtain ⟨arrangement⟩ := Order.exists_arrangement_of_sort hapart stages.sort_eq
  have hcycles : compilation.cycles = stages.sorted.cycles :=
    congrArg Compilation.cycles stages.result_eq
  rw [hcycles, arrangement.mem_cycles_iff hapart] at hcycle
  -- A member of a group refers to another one, so it is declared.
  obtain ⟨hloop, -⟩ := (hcycle.mem_iff name hname name).1 hname
  obtain ⟨-, ⟨⟨d, hd, hdname, -⟩, -⟩, -⟩ := Relation.TransGen.head'_iff.1 hloop
  exact ⟨d, (stages.perm schemas.hasTextNames).mem_iff.2 hd, hdname⟩

variable (listed : config.ignoreSchemas = some (.sequence (ignored.map .text)))

include listed

/-- An entry is left out, declared or refused. -/
theorem HasSchemas.exists_disposed (hentry : entry ∈ table) :
    ∃ disposition, Disposed config ignored table compilation entry disposition := by
  obtain ⟨stages, hfound, -, -⟩ := exists_stages_of_compile schemas h
  obtain ⟨component, -, hof⟩ := exists_of_forall₂ hfound hentry
  obtain ⟨name, hname, htested⟩ := schemas.exists_ignores listed hentry
  have hnamed := schemas.mem_names_iff h hentry
  have hledger := @filter_ledger config table entry schemas.apart hentry
  have hdeclaration := @declarationOf_eq config entry component hof
  have hcomponent := hof.name_eq
  by_cases hignored : name ∈ ignored
  · rw [decide_eq_true hignored] at htested
    refine ⟨.leftOut, ⟨name, hignored, hname⟩, fun hmem => ?_, ?_⟩
    · obtain ⟨d, hd⟩ := hnamed.1 hmem
      rw [hdeclaration, Declaration.declared?, hcomponent, htested] at hd
      cases hd
    · rw [hledger, entryReports_of_ignored hof htested]
  · rw [decide_eq_false hignored] at htested
    have considered := hcomponent ▸ htested
    by_cases hshape : component.body.HasDeclaredShape
    · obtain ⟨⟨d, hd⟩, -⟩ := Declaration.of_hasDeclaredShape considered hshape
      refine ⟨.declared, ⟨component.body, hof.body_eq, hshape⟩, ?_⟩
      exact List.count_eq_one_of_mem (schemas.nodup_names h)
        (hnamed.2 ⟨d, hdeclaration.trans hd⟩)
    · obtain ⟨hnone, -⟩ := Declaration.of_not_hasDeclaredShape considered hshape
      obtain ⟨report, hreports, honWhole, hpath⟩ := entryReports_of_refused hof htested hshape
      refine ⟨.refused, fun hmem => ?_, component.body, report, hof.body_eq, honWhole, hpath,
        hledger.trans hreports, ?_⟩
      · obtain ⟨d, hd⟩ := hnamed.1 hmem
        rw [hdeclaration, hnone] at hd
        cases hd
      · rw [path_of_classify hof.body_eq, schemas.filter_ledger_path listed hfound hentry, hreports,
          List.filter_singleton, honWhole]
        rfl

/-- **Accounting.**  Each component schema is left out, declared or refused, and only one of these;
nothing else is declared, and every diagnostic comes from a schema that is not left out or is about
declarations. -/
theorem accounting_of_compile : Accounting config ignored table compilation where
  disposed entry hentry := by
    obtain ⟨disposition, hdisposed⟩ := schemas.exists_disposed h listed hentry
    exact ⟨disposition, hdisposed, fun _ hother => hother.unique hdisposed⟩
  declared d hd := by
    have hperm := (accounts_of_compile schemas h).perm
    obtain ⟨entry, hentry, hdeclared⟩ := List.mem_filterMap.1 (hperm.mem_iff.1 hd)
    have hname := name_of_declarationOf hdeclared
    have hmem : entry.1 ∈ compilation.declarations.map (·.name) :=
      (schemas.mem_names_iff h hentry).2 ⟨d, hdeclared⟩
    obtain ⟨disposition, hdisposed⟩ := schemas.exists_disposed h listed hentry
    cases disposition with
    | leftOut => exact absurd hmem hdisposed.2.1
    | declared => exact ⟨entry, hentry, hname, hdisposed⟩
    | refused => exact absurd hmem hdisposed.1
  reported report hreport := by
    obtain ⟨entry, hentry, hreport⟩ := List.mem_flatMap.1 hreport
    refine ⟨entry, hentry, name_of_mem_entryReports hreport, ?_⟩
    rintro ⟨-, -, hnone⟩
    rw [filter_ledger schemas.apart hentry] at hnone
    rw [hnone] at hreport
    cases hreport
  diagnostics_eq := by
    obtain ⟨stages, hfound, hbuildable, -⟩ := exists_stages_of_compile schemas h
    have hresult := stages.result_eq
    rw [Declaration.buildAll_of_isBuildable hbuildable] at hresult
    have hcycles := congrArg Compilation.cycles hresult
    have hdeclarations := congrArg Compilation.declarations hresult
    rw [map_diagnostic_ledger hfound, hcycles, hdeclarations]
    exact congrArg Compilation.diagnostics hresult
  cycles _ hcycle _ hname := schemas.exists_of_mem_cycle h hcycle hname

end Account

end Reports

/-! ## A schema with the place of another one's property -/

namespace MisplacedAge

/-- Pets have an age of an unknown type. -/
def pet : Scalar × Value :=
  (.text "Pet", .table [(.text "type", .text "object"),
    (.text "properties", .table [(.text "age", .table [(.text "type", .text "years")])])])

/-- A schema with a name that reads like the place of the age of pets. -/
def age : Scalar × Value :=
  (.text "Pet/properties/age", .table [(.text "items", .table [])])

/-- A schema that is left out. -/
def draft : Scalar × Value :=
  (.text "Draft", .table [(.text "type", .text "years")])

/-- The configuration that leaves it out. -/
def config : Config := { ignoreSchemas := some (.sequence [.text "Draft"]) }

/-- The document with these schemas. -/
def document : Value :=
  .table [(.text "openapi", .text "3.0.0"),
    (.text "components", .table [(.text "schemas", .table [pet, age, draft])])]

/-- Pets are declared without an age; two reports name the same place. -/
def result : Compilation where
  declarations := [⟨.text "Pet", .record [], .bool true⟩]
  diagnostics := [
    ⟨.unsupportedShape, "unsupported type 'years'", "#/components/schemas/Pet/properties/age"⟩,
    ⟨.unsupportedShape, "root-level array is not supported as a declaration",
      "#/components/schemas/Pet/properties/age"⟩]
  cycles := []

/-- The document has these schemas. -/
theorem hasSchemas_document : HasSchemas document [pet, age, draft] where
  checked := rfl
  schemas := rfl
  text := by simp [pet, age, draft]
  apart := by simp [pet, age, draft]

/-- The document is compiled so. -/
theorem compile_document : (compile config document).outcome = .ok result := by
  refine compile_outcome_eq_ok_iff.2 ⟨⟨{
    components := [
      ⟨.text "Pet", .object "#/components/schemas/Pet" [(.text "age",
        .unclassified "#/components/schemas/Pet/properties/age" "unsupported type 'years'")]
        [] none none⟩,
      ⟨.text "Pet/properties/age", .array "#/components/schemas/Pet/properties/age"
        (some (.unclassified "#/components/schemas/Pet/properties/age/items"
          "no type, items, $ref or composition keyword"))⟩,
      ⟨.text "Draft", .unclassified "#/components/schemas/Draft" "unsupported type 'years'"⟩]
    declarations := result.declarations
    sorted := ⟨result.declarations, [], []⟩
    checked := rfl
    classified := by cbv
    built := by cbv
    sort_eq := by cbv
    result_eq := by cbv }⟩, ?_⟩
  intro hstrict
  cases hstrict

/-- The reports at the same place are told apart by the schemas they come from. -/
theorem accounting_document : HasSchemas document [pet, age, draft] ∧
    (compile config document).outcome = .ok result ∧
    config.ignoreSchemas = some (.sequence ((["Draft"] : List Text).map .text)) ∧
    Accounting config ["Draft"] [pet, age, draft] result :=
  ⟨hasSchemas_document, compile_document, rfl,
    accounting_of_compile hasSchemas_document compile_document rfl⟩

end MisplacedAge

end SchemaCodecs
