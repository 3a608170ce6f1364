/-
# What resolving comes to

The type of a node has a record for every object in use that keeps its own, with exactly the
properties that have a type, and an identifier for every reference in use.  Together with the nodes
without a type and with what is left out this says all that resolving a node comes to, as long as the
reasons that it gives can be shown.

* `Node.HasRecord` : the record of an object;
* `Node.attempt` : the type of a node with notes on what was left out;
* `Node.attempt_eq` : what an attempt comes to.
-/
import SchemaCodecs.Proofs.Declaration.Parts
import Mathlib.Algebra.Group.Int.Defs
import Mathlib.Data.List.Forall2

namespace SchemaCodecs.Schema.Node

/-! ## Records and identifiers -/

/-- A field stands for a property: it has its name and its type, and it may be left out unless the
name is mandatory. -/
structure Shows (required : List Scalar) (entry : Scalar × Node) (field : Field TypeExpr) :
    Prop where
  /-- The name is that of the property. -/
  name : field.name = entry.1
  /-- The type is that of its node. -/
  type : entry.2.resolve.2 = .ok field.type
  /-- A mandatory property cannot be left out. -/
  mandatory : field.optional = false ↔ ∃ name ∈ required, name.same entry.1 = true

/-- An object with this record: it has properties or no composition, and the fields stand for the
properties that have a type, in order. -/
inductive HasRecord : Node → List (Field TypeExpr) → Prop where
  /-- The record of an object. -/
  | object {path : Text} {properties : List (Scalar × Node)} {required : List Scalar}
      {allOf oneOf : Option (List Node)} {fields : List (Field TypeExpr)}
      (kept : properties ≠ [] ∨ allOf = none ∧ oneOf = none)
      (shown : List.Forall₂ (Shows required)
        (properties.filter fun entry => entry.2.failure?.isNone) fields) :
      HasRecord (.object path properties required allOf oneOf) fields

/-- The field for a property is the one that stands for it. -/
theorem fieldOf?_eq_some_iff {required : List Scalar} {entry : Scalar × Node}
    {field : Field TypeExpr} :
    fieldOf? required entry = some field ↔ Shows required entry field := by
  have hmandatory : ∀ optional : Bool, optional = (!required.any (·.same entry.1)) ↔
      (optional = false ↔ ∃ name ∈ required, name.same entry.1 = true) := by
    intro optional
    rw [← List.any_eq_true]
    cases optional <;> cases required.any (·.same entry.1) <;> simp
  constructor
  · intro h
    obtain ⟨type, htype, rfl⟩ := Option.map_eq_some_iff.1 h
    exact ⟨rfl, eq_ok_of_toOption htype, (hmandatory _).1 rfl⟩
  · rintro ⟨hname, htype, hoptional⟩
    obtain ⟨name, type, optional⟩ := field
    simp only at hname htype hoptional
    subst hname
    rw [fieldOf?, htype, (hmandatory optional).2 hoptional]
    rfl

/-- The fields of a record stand for the properties that have a type, in order. -/
theorem forall₂_shows_iff {required : List Scalar} {properties : List (Scalar × Node)}
    {fields : List (Field TypeExpr)} :
    List.Forall₂ (Shows required) (properties.filter fun entry => entry.2.failure?.isNone) fields
      ↔ fields = fieldsOf required properties := by
  induction properties generalizing fields with
  | nil => exact List.forall₂_nil_left_iff
  | cons entry rest ih =>
    rw [fieldsOf, List.filterMap_cons, ← fieldsOf, List.filter_cons]
    cases hfailure : entry.2.failure? with
    | some cause =>
      have hnone : fieldOf? required entry = none := by
        rw [fieldOf?, (resolve_eq_error_iff _ _).2 hfailure]
        rfl
      rw [hnone, ← ih]
      simp
    | none =>
      obtain ⟨type, htype⟩ := exists_type_of_failure? hfailure
      obtain ⟨field, hfield⟩ : ∃ field, fieldOf? required entry = some field :=
        ⟨_, by rw [fieldOf?, htype]; rfl⟩
      simp only [hfield, Option.isNone_none, if_true, List.forall₂_cons_left_iff, ih]
      constructor
      · rintro ⟨own, others, hown, rfl, rfl⟩
        rw [← fieldOf?_eq_some_iff, hfield] at hown
        cases hown
        rfl
      · rintro rfl
        exact ⟨field, _, fieldOf?_eq_some_iff.1 hfield, rfl, rfl⟩

/-- An object without composition is the only node of which the type is a record. -/
theorem hasRecord_of_resolve {node : Node} {fields : List (Field TypeExpr)}
    (h : node.resolve.2 = .ok (.record fields)) : node.HasRecord fields := by
  induction node using parts_induction with
  | leaf node hleaf => obtain (⟨_, ⟨⟩⟩ | ⟨_, ⟨⟩⟩ | ⟨_, ⟨⟩⟩) := type_leaf hleaf h
  | array path items _ =>
    rw [resolve] at h
    obtain ⟨_, -, ⟨⟩⟩ := exists_of_map_eq_ok h
  | object path properties required allOf oneOf _ _ =>
    rw [type_object, Except.ok.injEq] at h
    cases allOf with
    | some all => cases h
    | none =>
      cases oneOf with
      | some one =>
        simp only [Option.map_none, Option.map_some, composed] at h
        split at h <;> cases h
      | none =>
        cases h
        exact .object (Or.inr ⟨rfl, rfl⟩) (forall₂_shows_iff.2 rfl)

/-- A reference is the only node of which the type is an identifier. -/
theorem exists_target_of_resolve {node : Node} {name : Text}
    (h : node.resolve.2 = .ok (.identifier name)) :
    ∃ path target, node = .reference path target ∧ Reference.declarationName target = name := by
  cases node with
  | reference path target =>
    cases h
    exact ⟨path, target, rfl, rfl⟩
  | array path items =>
    cases items with
    | none => cases h
    | some items =>
      rw [resolve] at h
      obtain ⟨_, -, ⟨⟩⟩ := exists_of_map_eq_ok h
  | object path properties required allOf oneOf =>
    rw [type_object, Except.ok.injEq] at h
    unfold composed at h
    split at h
    · cases h
    · split at h <;> cases h
    · cases h
  | string path enumeration =>
    rw [resolve] at h
    obtain (⟨_, ⟨⟩⟩ | ⟨_, ⟨⟩⟩) := type_string h
  | primitive | unclassified | bare => cases h

/-- A node adds a record just when it is an object with that record. -/
theorem makes_record_iff {node : Node} {fields : List (Field TypeExpr)} :
    node.Makes (.record fields) ↔ node.HasRecord fields := by
  constructor
  · intro h
    cases h with
    | record own => exact .object (Or.inl own) (forall₂_shows_iff.2 rfl)
    | type h => exact hasRecord_of_resolve h
  · rintro ⟨kept, shown⟩
    rw [forall₂_shows_iff] at shown
    subst shown
    rcases kept with own | ⟨rfl, rfl⟩
    · exact .record own
    · refine .type ?_
      rw [type_object]
      rfl

/-- A node adds an identifier just when it is a reference to what the name declares. -/
theorem makes_identifier_iff {node : Node} {name : Text} :
    node.Makes (.identifier name) ↔
      ∃ path target, node = .reference path target ∧ Reference.declarationName target = name := by
  constructor
  · intro h
    cases h with
    | type h => exact exists_target_of_resolve h
  · rintro ⟨path, target, rfl, rfl⟩
    exact .type rfl

/-! ## Attempts -/

/-- The type of a node, or the reason why it has none, with notes on what was left out; a reason that
cannot be shown ends the work. -/
def attempt (node : Node) : Traced Notice (Except Unsupported TypeExpr) := do
  Declaration.noteAll node.resolve.1
  match node.resolve.2 with
  | .ok type => return .ok type
  | .error cause =>
    if cause.showable then return .error cause else Traced.fail (.invalid .longInteger)

/-- The reasons of the nodes in use can be shown. -/
def ReasonsShown (node : Node) : Prop :=
  ∀ part cause, node.Uses part → part.failure? = some cause → cause.showable = true

/-- The reasons of the nodes in use are those that are noted and that of the node itself. -/
theorem reasonsShown_iff {node : Node} : node.ReasonsShown ↔
    (∀ notice ∈ node.resolve.1, notice.isHidden = false) ∧
      ∀ cause, node.failure? = some cause → cause.showable = true := by
  have hreports : node.ReasonsShown ↔ ∀ cause, node.Reports cause → cause.showable = true := by
    simp only [ReasonsShown, reports_iff, ← resolve_eq_error_iff]
    exact ⟨fun h cause ⟨part, huses, hcause⟩ => h part cause huses hcause,
      fun h part cause huses hcause => h cause ⟨part, huses, hcause⟩⟩
  rw [hreports, forall_isHidden_eq_false_iff]
  simp only [Reports, resolve_eq_error_iff]
  exact ⟨fun h => ⟨fun cause hcause => h cause (Or.inl hcause),
    fun cause hcause => h cause (Or.inr hcause)⟩,
    fun h cause hcause => hcause.elim (h.1 cause) (h.2 cause)⟩

/-- An attempt with reasons that can be shown gives the notes and the type. -/
theorem attempt_of_shown {node : Node} (h : node.ReasonsShown) :
    node.attempt = ⟨node.resolve.1, .ok node.resolve.2⟩ := by
  obtain ⟨hnotices, hown⟩ := reasonsShown_iff.1 h
  rw [attempt, Traced.bind_of_ok (Declaration.noteAll_of_shown hnotices)]
  cases htype : node.resolve.2 with
  | ok type => simp [pure]
  | error cause =>
    simp [pure, hown cause ((resolve_eq_error_iff _ _).1 htype)]

/-- Any other attempt fails. -/
theorem attempt_of_not_shown {node : Node} (h : ¬ node.ReasonsShown) :
    node.attempt.outcome = .error (.invalid .longInteger) := by
  by_cases hnotices : ∀ notice ∈ node.resolve.1, notice.isHidden = false
  · -- Everything below the node can be noted, so it is the reason of the node itself.
    have hown : ∃ cause, node.failure? = some cause ∧ cause.showable = false := by
      by_contra hnone
      push Not at hnone
      exact h (reasonsShown_iff.2 ⟨hnotices, fun cause hcause => by simpa using hnone cause hcause⟩)
    obtain ⟨cause, hcause, hhidden⟩ := hown
    rw [attempt, Traced.bind_of_ok (Declaration.noteAll_of_shown hnotices),
      (resolve_eq_error_iff _ _).2 hcause]
    simp only [hhidden, Bool.false_eq_true, if_false]
    rfl
  · push Not at hnotices
    obtain ⟨notice, hnotice, hhidden⟩ := hnotices
    rw [attempt, Traced.outcome_bind,
      Declaration.noteAll_of_hidden hnotice (by simpa using hhidden)]
    rfl

/-- A component that is not ignored and can be declared is built by an attempt at its schema. -/
theorem buildAll_eq_attempt {config : Config} {component : Component} (rest : List Component)
    (considered : config.ignores component.name = .ok false)
    (declarable : component.body.isDeclarable = true) :
    Declaration.buildAll config (component :: rest) = (component.body.attempt >>= fun
      | .ok type => do
        return ⟨component.name, type, config.exportDeclarations⟩ ::
          (← Declaration.buildAll config rest)
      | .error cause => do
        Traced.note [.component component.name cause]
        Declaration.buildAll config rest) := by
  have htest : (liftM (config.ignores component.name) : Traced Notice Bool) = ⟨[], .ok false⟩ := by
    rw [considered]
    rfl
  rw [Declaration.buildAll, Traced.bind_of_ok htest, Declaration.build_of_isDeclarable declarable,
    attempt]
  simp only [Bool.false_eq_true, if_false, List.nil_append]
  generalize Declaration.noteAll component.body.resolve.1 = noted
  obtain ⟨trace, outcome⟩ := noted
  cases component.body.resolve.2 with
  | ok type => cases outcome <;> simp [bind, Traced.bind, pure, Except.map]
  | error cause =>
    cases hshowable : cause.showable <;> cases outcome <;>
      simp [bind, Traced.bind, pure, Except.map, Declaration.noteAll, Notice.isHidden,
        Notice.cause?, hshowable, Traced.fail, Traced.note]

/-- The diagnostics that an attempt records are those of its notes. -/
theorem diagnostics_entries (node : Node) :
    (node.entries.filterMap Entry.notice?).filterMap Notice.diagnostic?
      = node.entries.filterMap fun entry =>
        entry.node.failure?.map fun cause => ⟨.unsupportedShape, cause.reason, cause.path⟩ := by
  rw [List.filterMap_filterMap]
  refine congrArg (fun f => node.entries.filterMap f) (funext fun entry => ?_)
  cases entry <;> simp only [Entry.notice?, Entry.node] <;>
    cases Node.failure? _ <;> rfl

/-- **What resolving comes to.**  An attempt succeeds just when the reasons of the nodes in use can be
shown.  Then a node at which the items of arrays lead to one without a type gives the reason of that
one and notes nothing.  Any other node gives a type, and what is noted are the properties and members
without a type, each once, in the order they are met, with the reason of the node that their items
lead to.  The type has exactly the records of the objects in use and mentions exactly what the
references in use name. -/
theorem attempt_eq (node : Node) :
    (¬ node.ReasonsShown → node.attempt.outcome = .error (.invalid .longInteger)) ∧
    (node.ReasonsShown →
      (∀ cause, node.failure? = some cause → node.attempt = ⟨[], .ok (.error cause)⟩) ∧
      (node.failure? = none → ∃ type,
        node.attempt = ⟨node.entries.filterMap Entry.notice?, .ok (.ok type)⟩ ∧
        node.attempt.trace.filterMap Notice.diagnostic?
          = (node.entries.filterMap fun entry => entry.node.failure?.map fun cause =>
              ⟨.unsupportedShape, cause.reason, cause.path⟩) ∧
        (∀ fields, (TypeExpr.record fields).Occurs type ↔
          ∃ part, node.Uses part ∧ part.HasRecord fields) ∧
        ∀ name, name ∈ type.identifiers ↔ ∃ path target, node.Uses (.reference path target) ∧
          Reference.declarationName target = name)) := by
  refine ⟨attempt_of_not_shown, fun hshown => ⟨?_, ?_⟩⟩
  · intro cause hcause
    rw [attempt_of_shown hshown, notices_resolve, entries_of_failure? hcause,
      (resolve_eq_error_iff _ _).2 hcause, List.filterMap_nil]
  · intro hfailure
    obtain ⟨type, htype⟩ := exists_type_of_failure? hfailure
    have hattempt : node.attempt = ⟨node.entries.filterMap Entry.notice?, .ok (.ok type)⟩ := by
      rw [attempt_of_shown hshown, notices_resolve, htype]
    refine ⟨type, hattempt, ?_, fun fields => ?_, fun name => ?_⟩
    · rw [hattempt]
      exact diagnostics_entries node
    · simp only [occurs_iff node htype, makes_record_iff]
    · rw [TypeExpr.mem_identifiers_iff_occurs, occurs_iff node htype]
      constructor
      · rintro ⟨part, huses, hmakes⟩
        obtain ⟨path, target, rfl, hname⟩ := makes_identifier_iff.1 hmakes
        exact ⟨path, target, huses, hname⟩
      · rintro ⟨path, target, huses, hname⟩
        exact ⟨_, huses, makes_identifier_iff.2 ⟨path, target, rfl, hname⟩⟩

/-! ## A basket -/

namespace Basket

/-- A shelf: an array of enumerations with the given value among them. -/
def tags (value : Scalar) : Node :=
  .array "#/tags" (some (.string "#/tags/items" (some [.text "new", .scalar value])))

/-- A basket has an owner and tags, and holds one of two kinds of things. -/
def basket (value : Scalar) : Node :=
  .object "#" [(.text "owner", .reference "#/owner" "#/components/schemas/Person"),
    (.text "tags", tags value)] [.text "owner"] none
    (some [.unclassified "#/oneOf/0" "unsupported schema type 'any'",
      .array "#/oneOf/1" (some (.object "#/oneOf/1/items"
        [(.text "fruit", .bare "#/oneOf/1/items/fruit")] [] none none))])

/-- What is left out of a basket with a truth value for a tag: the tags, a thing in a member, and a
member. -/
theorem attempt_eq_truth : (basket (.bool true)).ReasonsShown ∧
    (basket (.bool true)).failure? = none ∧
    ∃ type, (basket (.bool true)).attempt = ⟨[
      .property (.text "tags")
        ⟨"enum values must all be strings, got ['new', True]", "#/tags/items", true⟩,
      .member ⟨"unsupported schema type 'any'", "#/oneOf/0", true⟩,
      .property (.text "fruit") ⟨"unknown node SchemaNode", "#/oneOf/1/items/fruit", true⟩],
      .ok (.ok type)⟩ ∧ ("Person" : Text) ∈ type.identifiers ∧ (TypeExpr.record []).Occurs type := by
  have hnotices : (basket (.bool true)).entries.filterMap Entry.notice? = [
      .property (.text "tags")
        ⟨"enum values must all be strings, got ['new', True]", "#/tags/items", true⟩,
      .member ⟨"unsupported schema type 'any'", "#/oneOf/0", true⟩,
      .property (.text "fruit") ⟨"unknown node SchemaNode", "#/oneOf/1/items/fruit", true⟩] := by
    cbv
  have hshown : (basket (.bool true)).ReasonsShown := by
    refine reasonsShown_iff.2 ⟨?_, by rintro _ ⟨⟩⟩
    rw [notices_resolve, hnotices]
    decide
  obtain ⟨type, hattempt, -, hrecords, hidentifiers⟩ := ((attempt_eq _).2 hshown).2 rfl
  refine ⟨hshown, rfl, type, hnotices ▸ hattempt, ?_, ?_⟩
  · exact (hidentifiers _).2 ⟨_, _, .property List.mem_cons_self (.here _), by cbv⟩
  · refine (hrecords _).2
      ⟨_, .member (List.mem_cons_of_mem _ List.mem_cons_self) (.items (.here _)), ?_⟩
    exact .object (Or.inl (List.cons_ne_nil _ _)) .nil

/-- A number with too many digits for a tag: nothing is the matter with the basket itself, but there
is no outcome. -/
theorem attempt_long_number : (basket (.int (10 ^ Number.digitLimit))).failure? = none ∧
    (basket (.int (10 ^ Number.digitLimit))).attempt.outcome
      = .error (.invalid .longInteger) := by
  refine ⟨rfl, attempt_of_not_shown fun hshown => ?_⟩
  have hwritable := hshown _ _ (.property (List.mem_cons_of_mem _ List.mem_cons_self)
    (.items (.here _))) rfl
  simp [Value.isShowable, Value.itemsShowable, Scalar.isShowable, Number.isWritable,
    Int.natAbs_pow] at hwritable

end Basket

end SchemaCodecs.Schema.Node
