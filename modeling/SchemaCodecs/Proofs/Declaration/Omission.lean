/-
# What is left out of a declaration

A node without a type never stops the building of a declaration: what it belongs to is left out, and
a note gives the reason.  The reasons noted for a component are exactly those of the nodes without a
type that its declaration uses.

* `Node.Uses` : the nodes that the type of a node is made from;
* `Node.reports_iff` : which reasons are given for a node;
* `mem_causesOf_buildNotices` : which reasons are noted for a component.
-/
import SchemaCodecs.Proofs.Declaration.Building
import Mathlib.Data.List.Basic

namespace SchemaCodecs

open Schema

/-! ## Reasons -/

/-- The reasons that notes give. -/
def causesOf (notices : List Notice) : List Unsupported :=
  notices.filterMap Notice.cause?

theorem mem_causesOf_append {first second : List Notice} {cause : Unsupported} :
    cause ∈ causesOf (first ++ second) ↔ cause ∈ causesOf first ∨ cause ∈ causesOf second := by
  rw [causesOf, List.filterMap_append, List.mem_append]
  rfl

/-- Notes can be shown if their reasons can. -/
theorem forall_isHidden_eq_false_iff (notices : List Notice) :
    (∀ notice ∈ notices, notice.isHidden = false) ↔
      ∀ cause ∈ causesOf notices, cause.showable = true := by
  constructor
  · intro h cause hcause
    obtain ⟨notice, hnotice, heq⟩ := List.mem_filterMap.1 hcause
    simpa [Notice.isHidden, heq] using h notice hnotice
  · intro h notice hnotice
    cases hcause : notice.cause? with
    | none => rw [Notice.isHidden, hcause, Option.any_none]
    | some cause =>
      have hshown := h cause (List.mem_filterMap.2 ⟨notice, hnotice, hcause⟩)
      rw [Notice.isHidden, hcause, Option.any_some, hshown, Bool.not_true]

namespace Schema.Node

/-! ## Nodes in use -/

/-- The members of the composition that an object is made from: those of the first kind, if there is
one. -/
def composedMembers (allOf oneOf : Option (List Node)) : List Node :=
  (allOf.or oneOf).getD []

theorem sizeOf_composedMembers_le (allOf oneOf : Option (List Node)) :
    sizeOf (composedMembers allOf oneOf) ≤ sizeOf allOf + sizeOf oneOf := by
  cases allOf <;> cases oneOf <;> simp [composedMembers] <;> omega

/-- Whether a node has nodes in it. -/
def hasParts : Node → Bool
  | array _ (some _) | object _ _ _ _ _ => true
  | _ => false

/-- A fact holds of every node if it passes from the items to an array and from the properties and
members to an object, and if it holds of the nodes with no nodes in them. -/
@[elab_as_elim]
theorem parts_induction {motive : Node → Prop} (leaf : ∀ node, node.hasParts = false → motive node)
    (array : ∀ path items, motive items → motive (array path (some items)))
    (object : ∀ path properties required allOf oneOf, (∀ entry ∈ properties, motive entry.2) →
      (∀ member ∈ composedMembers allOf oneOf, motive member) →
      motive (object path properties required allOf oneOf)) :
    ∀ node, motive node
  | .array path (some items) => array path items (parts_induction leaf array object items)
  | .object path properties required allOf oneOf =>
    object path properties required allOf oneOf
      (fun entry hentry =>
        have := List.sizeOf_lt_of_mem hentry
        have : sizeOf entry = 1 + sizeOf entry.1 + sizeOf entry.2 := by cases entry; rfl
        parts_induction leaf array object entry.2)
      fun member hmember =>
        have := List.sizeOf_lt_of_mem hmember
        have := sizeOf_composedMembers_le allOf oneOf
        parts_induction leaf array object member
  | .reference _ _ | .array _ none | .primitive _ _ | .string _ _ | .unclassified _ _ | .bare _ =>
    leaf _ rfl
termination_by node => sizeOf node
decreasing_by
  all_goals simp only [Node.array.sizeOf_spec, Node.object.sizeOf_spec, Option.some.sizeOf_spec]
  all_goals omega

/-- The type of a node is made from the types of these nodes. -/
inductive Uses : Node → Node → Prop where
  /-- The node itself. -/
  | here (node : Node) : Uses node node
  /-- The items of an array. -/
  | items {path : Text} {items inner : Node} (h : Uses items inner) :
      Uses (.array path (some items)) inner
  /-- The properties of an object. -/
  | property {path : Text} {properties : List (Scalar × Node)} {required : List Scalar}
      {allOf oneOf : Option (List Node)} {entry : Scalar × Node} {inner : Node}
      (mem : entry ∈ properties) (h : Uses entry.2 inner) :
      Uses (.object path properties required allOf oneOf) inner
  /-- The members of its composition. -/
  | member {path : Text} {properties : List (Scalar × Node)} {required : List Scalar}
      {allOf oneOf : Option (List Node)} {member inner : Node}
      (mem : member ∈ composedMembers allOf oneOf) (h : Uses member inner) :
      Uses (.object path properties required allOf oneOf) inner

/-- A reason is noted with the type of a node, or it is the reason why the node has none. -/
def Reports (node : Node) (cause : Unsupported) : Prop :=
  cause ∈ causesOf node.resolve.1 ∨ node.resolve.2 = .error cause

/-! ## Reasons that are given -/

/-- The reasons noted with the properties of a record are those given for each. -/
theorem mem_causesOf_resolveProperties (required : List Scalar) (properties : List (Scalar × Node))
    (cause : Unsupported) : cause ∈ causesOf (resolveProperties required properties).1 ↔
      ∃ entry ∈ properties, entry.2.Reports cause := by
  induction properties with
  | nil => simp [resolveProperties, causesOf]
  | cons entry rest ih =>
    obtain ⟨name, node⟩ := entry
    rw [resolveProperties, List.exists_mem_cons_iff, ← ih, Reports]
    cases hnode : node.resolve.2 with
    | ok type => simp [hnode, mem_causesOf_append]
    | error own =>
      have hown : cause ∈ causesOf
          (.property name own :: (resolveProperties required rest).1) ↔
            own = cause ∨ cause ∈ causesOf (resolveProperties required rest).1 := by
        simp [causesOf, Notice.cause?, eq_comm]
      simp only [hnode, mem_causesOf_append, hown, Except.error.injEq, or_assoc]

/-- The reasons noted with the members of a composition are those given for each. -/
theorem mem_causesOf_resolveMembers (members : List Node) (cause : Unsupported) :
    cause ∈ causesOf (resolveMembers members).1 ↔ ∃ member ∈ members, member.Reports cause := by
  induction members with
  | nil => simp [resolveMembers, causesOf]
  | cons node rest ih =>
    rw [resolveMembers, List.exists_mem_cons_iff, ← ih, Reports]
    cases hnode : node.resolve.2 with
    | ok type => simp [hnode, mem_causesOf_append]
    | error own =>
      have hown : cause ∈ causesOf (.member own :: (resolveMembers rest).1) ↔
          own = cause ∨ cause ∈ causesOf (resolveMembers rest).1 := by
        simp [causesOf, Notice.cause?, eq_comm]
      simp only [hnode, mem_causesOf_append, hown, Except.error.injEq, or_assoc]

section Object

variable (path : Text) (properties : List (Scalar × Node)) (required : List Scalar)
  (allOf oneOf : Option (List Node))

theorem resolve_object : (object path properties required allOf oneOf).resolve.1
    = (resolveProperties required properties).1
      ++ (resolveMembers (composedMembers allOf oneOf)).1 := by
  cases allOf <;> cases oneOf <;> simp [resolve, composedMembers, resolveMembers]

theorem exists_resolve_object :
    ∃ type, (object path properties required allOf oneOf).resolve.2 = .ok type := by
  cases allOf <;> cases oneOf <;> simp [resolve]

/-- The reasons given for an object are those given for its properties and its members. -/
theorem reports_object_iff (cause : Unsupported) :
    (object path properties required allOf oneOf).Reports cause ↔
      (∃ entry ∈ properties, entry.2.Reports cause) ∨
        ∃ member ∈ composedMembers allOf oneOf, member.Reports cause := by
  obtain ⟨type, htype⟩ := exists_resolve_object path properties required allOf oneOf
  rw [Reports, htype, resolve_object, mem_causesOf_append, mem_causesOf_resolveProperties,
    mem_causesOf_resolveMembers]
  simp

end Object

theorem reports_array_iff (path : Text) (items : Node) (cause : Unsupported) :
    (array path (some items)).Reports cause ↔ items.Reports cause := by
  rw [Reports, Reports, resolve]
  cases hitems : items.resolve.2 <;> simp [hitems, Except.map]

/-- A node without nodes in it gives its own reason only. -/
theorem resolve_eq_error_of_reports {node : Node} {cause : Unsupported} (h : node.Reports cause)
    (noted : causesOf node.resolve.1 = []) : node.resolve.2 = .error cause := by
  rcases h with hnoted | hown
  · rw [noted] at hnoted
    cases hnoted
  · exact hown

/-- A reason that is given is that of a node in use. -/
theorem exists_uses_of_reports {cause : Unsupported} (node : Node) (h : node.Reports cause) :
    ∃ inner, node.Uses inner ∧ inner.resolve.2 = .error cause := by
  -- Only arrays and objects pass on reasons of others.
  induction node using parts_induction with
  | leaf node hleaf =>
    cases node with
    | array path items =>
      cases items with
      | none => exact ⟨_, .here _, resolve_eq_error_of_reports h rfl⟩
      | some items => cases hleaf
    | object => cases hleaf
    | reference | primitive | string | unclassified | bare =>
      exact ⟨_, .here _, resolve_eq_error_of_reports h rfl⟩
  | array path items ih =>
    obtain ⟨inner, huses, hcause⟩ := ih ((reports_array_iff path items cause).1 h)
    exact ⟨inner, .items huses, hcause⟩
  | object path properties required allOf oneOf ihproperties ihmembers =>
    rcases (reports_object_iff path properties required allOf oneOf cause).1 h with
      ⟨entry, hentry, hreports⟩ | ⟨member, hmember, hreports⟩
    · obtain ⟨inner, huses, hcause⟩ := ihproperties entry hentry hreports
      exact ⟨inner, .property hentry huses, hcause⟩
    · obtain ⟨inner, huses, hcause⟩ := ihmembers member hmember hreports
      exact ⟨inner, .member hmember huses, hcause⟩

/-- **Reasons.**  The reasons given for a node are exactly those of the nodes without a type that it
uses. -/
theorem reports_iff (node : Node) (cause : Unsupported) :
    node.Reports cause ↔ ∃ inner, node.Uses inner ∧ inner.resolve.2 = .error cause := by
  refine ⟨exists_uses_of_reports node, ?_⟩
  rintro ⟨inner, huses, hcause⟩
  induction huses with
  | here node => exact Or.inr hcause
  | items _ ih => exact (reports_array_iff _ _ _).2 (ih hcause)
  | property mem _ ih => exact (reports_object_iff _ _ _ _ _ _).2 (Or.inl ⟨_, mem, ih hcause⟩)
  | member mem _ ih => exact (reports_object_iff _ _ _ _ _ _).2 (Or.inr ⟨_, mem, ih hcause⟩)

/-- Whether the schema of a component can have this shape: a reference or an array cannot be
declared. -/
def isDeclarable : Node → Bool
  | reference _ _ | array _ _ => false
  | _ => true

/-- Apart from the items of an array, a node without a type names its own place. -/
theorem path_of_resolve_eq_error {node : Node} {cause : Unsupported}
    (declarable : node.isDeclarable = true) (h : node.resolve.2 = .error cause) :
    cause.path = node.path := by
  cases node with
  | reference | array => cases declarable
  | object path properties required allOf oneOf =>
    obtain ⟨type, htype⟩ := exists_resolve_object path properties required allOf oneOf
    rw [htype] at h
    cases h
  | primitive =>
    rw [resolve] at h
    cases h
  | string path enumeration =>
    rw [resolve] at h
    unfold resolveString at h
    split at h
    · cases h
    · split at h <;> cases h
      rfl
  | unclassified | bare =>
    rw [resolve] at h
    cases h
    rfl

end Schema.Node

/-! ## Components -/

namespace Declaration

variable {config : Config} {component : Component}

/-- A schema that can be declared is built from its type. -/
theorem build_of_isDeclarable {name : Scalar} {node : Node} (h : node.isDeclarable = true) :
    build config name (some node) = (node.resolve.1,
      node.resolve.2.map fun type => ⟨name, type, config.exportDeclarations⟩) := by
  cases node with
  | reference | array => cases h
  | _ => rfl

/-- Any other schema is refused at its place. -/
theorem build_of_not_isDeclarable {name : Scalar} {node : Node} (h : node.isDeclarable = false) :
    ∃ reason, build config name (some node) = ([], .error { reason, path := node.path }) := by
  cases node with
  | reference | array => exact ⟨_, rfl⟩
  | _ => cases h

/-- The reasons noted for a component that can be declared are those given for its schema. -/
theorem mem_causesOf_buildNotices (h : component.body.isDeclarable = true) (cause : Unsupported) :
    cause ∈ causesOf (buildNotices config component) ↔ component.body.Reports cause := by
  rw [buildNotices, build_of_isDeclarable h, Node.Reports]
  cases hbody : component.body.resolve.2 with
  | ok type => simp [Except.map]
  | error own =>
    have hown : causesOf [.component component.name own] = [own] := rfl
    simp [Except.map, mem_causesOf_append, hown, eq_comm]

/-- For any other component there is one reason, which names its place. -/
theorem buildNotices_of_not_isDeclarable (h : component.body.isDeclarable = false) :
    ∃ reason, buildNotices config component
      = [.component component.name { reason, path := component.body.path }] := by
  obtain ⟨reason, hbuild⟩ := @build_of_not_isDeclarable config component.name _ h
  exact ⟨reason, by rw [buildNotices, hbuild]; rfl⟩

/-- **Declared or reported.**  A component that is not ignored is declared, or a reason is noted that
names its place. -/
theorem exists_cause_of_declared?_eq_none (considered : config.ignores component.name = .ok false)
    (h : declared? config component = none) :
    ∃ cause ∈ causesOf (noticesOn config component), cause.path = component.body.path := by
  rw [declared?, considered] at h
  rw [noticesOn, considered]
  cases hdeclarable : component.body.isDeclarable with
  | false =>
    obtain ⟨reason, hnotices⟩ := @buildNotices_of_not_isDeclarable config component hdeclarable
    rw [hnotices]
    exact ⟨_, List.mem_singleton_self _, rfl⟩
  | true =>
    rw [build_of_isDeclarable hdeclarable] at h
    cases hbody : component.body.resolve.2 with
    | ok type =>
      rw [hbody] at h
      cases h
    | error cause =>
      exact ⟨cause, (mem_causesOf_buildNotices hdeclarable cause).2 (Or.inr hbody),
        Node.path_of_resolve_eq_error hdeclarable hbody⟩

/-- The reasons of what a component uses can be shown, as far as they are noted. -/
def HasShownReasons (config : Config) (component : Component) : Prop :=
  config.ignores component.name = .ok false → component.body.isDeclarable = true →
    ∀ inner cause, component.body.Uses inner → inner.resolve.2 = .error cause →
      cause.showable = true

/-- A component can be built if the reasons noted for it can be shown. -/
theorem isBuildable_iff {ignored : Bool} (h : config.ignores component.name = .ok ignored) :
    IsBuildable config component ↔ HasShownReasons config component := by
  rw [IsBuildable, HasShownReasons, forall_isHidden_eq_false_iff, noticesOn, h]
  simp only [true_and, Except.ok.injEq, exists_eq']
  cases ignored with
  | true => simp [causesOf, Notice.cause?]
  | false =>
    -- A schema that cannot be declared is not looked into, and its own reason can be shown.
    cases hdeclarable : component.body.isDeclarable with
    | false =>
      obtain ⟨reason, hnotices⟩ := @buildNotices_of_not_isDeclarable config component hdeclarable
      simp [hnotices, causesOf, Notice.cause?]
    | true =>
      simp only [mem_causesOf_buildNotices hdeclarable, Node.reports_iff, forall_exists_index,
        and_imp, true_implies]
      exact forall_comm

end Declaration

end SchemaCodecs
