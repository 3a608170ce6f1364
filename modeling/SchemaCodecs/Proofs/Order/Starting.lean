/-
# The start of a cycle

When no declaration is ready, the lowest name is taken of those that wait only for their own cycle.
Whether the other names of that cycle wait for declarations outside is not looked at.  So a cycle can
start before all that it refers to, and then not at its lowest name either; it starts as it should
exactly if each of its names could start it.

* `OutsideEmitted` : what a name of a cycle waits for outside;
* `WaitsForOutside`, `LowestFirst` : how a cycle should start;
* `cycle_start` : how it starts, and when that is as it should be;
* `Invoices.cycle_starts_early` : a cycle that starts too early and not at its lowest name.
-/
import SchemaCodecs.Proofs.Order.Greedy

namespace SchemaCodecs.Order

open Relation

variable {declarations : List Declaration} {sorted : Sorted} {cycle front back emitted : List Text}
  {first name member other : Text}

/-! ## Cycles and their outside -/

/-- All declared names outside of a cycle that the declaration of a name mentions have been emitted. -/
def OutsideEmitted (declarations : List Declaration) (cycle emitted : List Text) (name : Text) :
    Prop :=
  ∀ other, Refers declarations name other → other ∉ cycle → other ∈ emitted

/-- A name of a cycle waits only for its own component if all that it refers to outside has been
emitted. -/
theorem IsComponent.waitsForOwn_iff (h : IsComponent declarations cycle) (hmember : member ∈ cycle) :
    WaitsForOwn declarations emitted member ↔ OutsideEmitted declarations cycle emitted member := by
  refine forall_congr' fun other => forall_congr' fun hrefers => ?_
  have hmem : other ∈ cycle ↔ Linked declarations member other :=
    (h.mem_iff member hmember other).trans (and_iff_right hrefers.2)
  rw [← hmem]
  tauto

/-- A name of a cycle with other names refers to one of these. -/
theorem IsComponent.exists_refers (h : IsComponent declarations cycle) (hname : name ∈ cycle)
    (hother : other ∈ cycle) (hne : other ≠ name) :
    ∃ next ∈ cycle, Refers declarations name next ∧ next ≠ name := by
  obtain ⟨-, hto, hback⟩ := (h.mem_iff name hname other).1 hother
  -- On the way to the other name, the first step away from the name leads to one of the cycle.
  have hway : ∀ start, ReflTransGen (Refers declarations) start other → start = name →
      ∃ next ∈ cycle, Refers declarations name next ∧ next ≠ name := by
    intro start hstart
    induction hstart using ReflTransGen.head_induction_on with
    | refl => exact fun heq => absurd heq hne
    | @head start next hstep hrest ih =>
      rintro rfl
      by_cases hnext : next = start
      · exact ih hnext
      · refine ⟨next, (h.mem_iff start hname next).2 ⟨hstep.2, .single hstep, ?_⟩, hstep, hnext⟩
        exact hrest.trans hback
  exact hway name hto rfl

/-- The first name of a cycle is not free when none of its names has been emitted. -/
theorem IsComponent.not_isFree (h : IsComponent declarations cycle) (two : 2 ≤ cycle.length)
    (hname : name ∈ cycle) (new : ∀ member ∈ cycle, member ∉ emitted) :
    ¬ IsFree declarations emitted name := by
  intro hfree
  obtain ⟨other, hother, hne⟩ : ∃ other ∈ cycle, other ≠ name := by
    obtain ⟨a, b, rest, rfl⟩ : ∃ a b rest, cycle = a :: b :: rest := by
      match cycle, two with
      | a :: b :: rest, _ => exact ⟨a, b, rest, rfl⟩
    have hlt := (List.pairwise_cons.1 h.ascending).1 b List.mem_cons_self
    by_cases ha : a = name
    · exact ⟨b, by simp, fun hb => hlt.ne (ha.trans hb.symm)⟩
    · exact ⟨a, by simp, ha⟩
  obtain ⟨next, hnext, hrefers, hne'⟩ := h.exists_refers hname hother hne
  exact new next hnext (hfree next hrefers hne')

/-! ## Places in an order -/

/-- One name stands before another. -/
def Before (order : List Text) (a b : Text) : Prop :=
  order.idxOf a < order.idxOf b

theorem before_of_mem_front (ha : name ∈ front) (hb : member ∉ front) :
    Before (front ++ back) name member := by
  rw [Before, List.idxOf_append_of_mem ha, List.idxOf_append_of_notMem hb]
  have hlt := List.idxOf_lt_length_of_mem ha
  omega

theorem mem_front_of_before (hfirst : first ∉ front) (h : Before (front ++ first :: back) name first) :
    name ∈ front := by
  by_contra hname
  rw [Before, List.idxOf_append_of_notMem hname, List.idxOf_append_of_notMem hfirst,
    List.idxOf_cons_self] at h
  omega

/-- The first of some names stands before the others. -/
theorem before_of_ne (hfirst : first ∉ front) (hmember : member ∉ front) (hne : member ≠ first) :
    Before (front ++ first :: back) first member := by
  rw [Before, List.idxOf_append_of_notMem hfirst, List.idxOf_append_of_notMem hmember,
    List.idxOf_cons_self, List.idxOf_cons_ne _ (Ne.symm hne)]
  omega

/-- A list in which one of some names stands has a first one of them. -/
theorem exists_first {order : List Text} (hmember : member ∈ cycle) (horder : member ∈ order) :
    ∃ front first back, order = front ++ first :: back ∧ first ∈ cycle ∧
      ∀ member ∈ cycle, member ∉ front := by
  cases hfind : order.find? fun name => decide (name ∈ cycle) with
  | none =>
    have hnone := List.find?_eq_none.1 hfind member horder
    exact absurd (decide_eq_true hmember) hnone
  | some first =>
    obtain ⟨hfirst, front, back, heq, hfront⟩ := List.find?_eq_some_iff_append.1 hfind
    refine ⟨front, first, back, heq, of_decide_eq_true hfirst, fun member hmember hmem => ?_⟩
    have hno := hfront member hmem
    simp only [hmember, decide_true, Bool.not_true] at hno
    cases hno

/-! ## Names of a greedy order -/

/-- The next name depends only on which names have been emitted. -/
theorem Emits.congr {others : List Text} (hsame : ∀ a, a ∈ emitted ↔ a ∈ others)
    (h : Emits declarations emitted name) : Emits declarations others name := by
  cases h with
  | free declared left free first =>
    simp only [IsFree, hsame] at left free first
    exact .free declared left free first
  | breaking left stuck waits lowest =>
    simp only [IsLeft, IsFree, WaitsForOwn, hsame] at left stuck waits lowest
    exact .breaking left stuck waits lowest

/-- Each name of a greedy order is the one that is emitted after those in front of it. -/
theorem Greedy.emits (h : Greedy declarations [] (front ++ name :: back)) :
    Emits declarations front name := by
  have hafter : ∀ (front emitted : List Text),
      Greedy declarations emitted (front ++ name :: back) →
        Emits declarations (front.reverse ++ emitted) name := by
    intro front
    induction front with
    | nil =>
      intro emitted h
      cases h with
      | emit emits _ => exact emits
    | cons first rest ih =>
      intro emitted h
      cases h with
      | emit _ greedy =>
        rw [List.reverse_cons, List.append_assoc]
        exact ih (first :: emitted) greedy
  refine (hafter front [] h).congr fun a => ?_
  rw [List.append_nil, List.mem_reverse]

/-- Every name that is left is in the greedy order. -/
theorem Greedy.mem {order : List Text} (h : Greedy declarations emitted order)
    (hleft : IsLeft declarations emitted name) : name ∈ order := by
  induction h with
  | done all => exact absurd hleft (all name)
  | @emit emitted rest next _ _ ih =>
    by_cases heq : name = next
    · rw [heq]
      exact List.mem_cons_self
    · exact List.mem_cons_of_mem _ (ih ⟨hleft.1, fun hmem =>
        (List.mem_cons.1 hmem).elim heq hleft.2⟩)

/-! ## How a cycle starts -/

/-- Every declaration outside of a cycle that one of its names refers to comes before all of its
names. -/
def WaitsForOutside (declarations : List Declaration) (order cycle : List Text) : Prop :=
  ∀ name ∈ cycle, ∀ other, Refers declarations name other → other ∉ cycle →
    ∀ member ∈ cycle, Before order other member

/-- The lowest name of a cycle comes before the others. -/
def LowestFirst (order cycle : List Text) : Prop :=
  ∀ low ∈ cycle, (∀ member ∈ cycle, low ≤ member) →
    ∀ member ∈ cycle, member ≠ low → Before order low member

/-- Every loop of two or more names that a name leads to goes through a name that is not above a given
one. -/
def LoopsBelow (declarations : List Declaration) (bound name : Text) : Prop :=
  ∀ a, ReflTransGen (Refers declarations) name a →
    ¬ TransGen (fun b c => Refers declarations b c ∧ b ≠ c ∧ bound < b ∧ bound < c) a a

/-- Where a name of a cycle does not refer to something outside that another one refers to, this leads
only to loops through a name that is not above the one of the cycle. -/
def NeverAhead (declarations : List Declaration) (cycle : List Text) : Prop :=
  ∀ member ∈ cycle, ∀ name ∈ cycle, ∀ other, Refers declarations name other → other ∉ cycle →
    ¬ Refers declarations member other → LoopsBelow declarations member other

section Start

variable (hcycle : IsComponent declarations cycle) (two : 2 ≤ cycle.length) (hfirst : first ∈ cycle)
  (new : ∀ member ∈ cycle, member ∉ front)

include hcycle hfirst new

theorem IsComponent.isLeft (hmember : member ∈ cycle) : IsLeft declarations front member :=
  ⟨((hcycle.mem_iff first hfirst member).1 hmember).1, new member hmember⟩

include two

/-- A cycle is broken at its first name when no name is free: what this name refers to outside has been
emitted, and it is the lowest name of those that wait only for their own component. -/
theorem IsComponent.breaking (emits : Emits declarations front first) :
    (∀ other, IsLeft declarations front other → ¬ IsFree declarations front other) ∧
      OutsideEmitted declarations cycle front first ∧
      ∀ other, IsLeft declarations front other → WaitsForOwn declarations front other →
        first ≤ other := by
  cases emits with
  | free _ _ free _ => exact absurd free (hcycle.not_isFree two hfirst new)
  | breaking _ stuck waits lowest =>
    exact ⟨stuck, (hcycle.waitsForOwn_iff hfirst).1 waits, lowest⟩

/-- **When a cycle starts as it should.**  All outside of it comes before it and it starts at its lowest
name exactly if what each of its names refers to outside has been emitted before the first of them. -/
theorem IsComponent.startsWell_iff (emits : Emits declarations front first) :
    WaitsForOutside declarations (front ++ first :: back) cycle ∧
        LowestFirst (front ++ first :: back) cycle ↔
      ∀ member ∈ cycle, OutsideEmitted declarations cycle front member := by
  constructor
  · rintro ⟨hwaits, -⟩ member hmember other hrefers hother
    exact mem_front_of_before (new first hfirst)
      (hwaits member hmember other hrefers hother first hfirst)
  · intro hemitted
    refine ⟨fun name hname other hrefers hother member hmember => ?_,
      fun low hlow hle member hmember hne => ?_⟩
    · exact before_of_mem_front (hemitted name hname other hrefers hother) (new member hmember)
    · obtain ⟨-, -, hlowest⟩ := hcycle.breaking two hfirst new emits
      have hleast : first ≤ low := hlowest low (hcycle.isLeft hfirst new hlow)
        ((hcycle.waitsForOwn_iff hlow).2 (hemitted low hlow))
      obtain rfl := le_antisymm hleast (hle first hfirst)
      exact before_of_ne (new first hfirst) (new member hmember) hne

end Start

/-! ## What keeps a cycle from starting early -/

/-- On finitely many things of which each is followed by one of them there is a loop. -/
theorem exists_loop {α : Type} {R : α → α → Prop} {things : Set α} (finite : things.Finite)
    (nonempty : things.Nonempty) (follow : ∀ a ∈ things, ∃ b ∈ things, R a b) :
    ∃ a ∈ things, TransGen R a a := by
  by_contra hnone
  push Not at hnone
  -- Without a loop one could go on only finitely often.
  have := finite.to_subtype
  let after (b a : things) : Prop := TransGen R a.val b.val
  have : IsTrans things after := ⟨fun _ _ _ hba hcb => TransGen.trans hcb hba⟩
  have : Std.Irrefl after := ⟨fun a => hnone a.val a.property⟩
  have hwf : WellFounded after := Finite.wellFounded_of_trans_of_irrefl _
  obtain ⟨⟨a, ha⟩, -, hlast⟩ := hwf.has_min Set.univ ⟨⟨_, nonempty.some_mem⟩, trivial⟩
  obtain ⟨b, hb, hab⟩ := follow a ha
  exact hlast ⟨b, hb⟩ trivial (.single hab)

/-- There are finitely many declared names. -/
theorem finite_isDeclared (declarations : List Declaration) :
    {name | IsDeclared declarations name}.Finite := by
  refine (List.finite_toSet (declarations.filterMap (·.name.text?))).subset ?_
  rintro name ⟨d, hd, hname⟩
  exact List.mem_filterMap.2 ⟨d, hd, text?_eq_some_iff.2 hname⟩

theorem isDeclared_of_reflTransGen (hname : IsDeclared declarations name)
    (h : ReflTransGen (Refers declarations) name other) : IsDeclared declarations other := by
  rcases reflTransGen_iff_eq_or_transGen.1 h with rfl | h
  · exact hname
  · exact isDeclared_of_transGen h

/-- A name that is left leads to one from which all ways to names that are left lead back. -/
theorem NamedApart.exists_lowest (h : NamedApart declarations)
    (hleft : IsLeft declarations emitted name) :
    ∃ low, ReflTransGen (Refers declarations) name low ∧ IsLeft declarations emitted low ∧
      ∀ other, ReflTransGen (Refers declarations) low other → other ∉ emitted →
        Linked declarations low other := by
  classical
  obtain ⟨⟨d, hd, hdname⟩, hnew⟩ := id hleft
  obtain ⟨v, hv⟩ := exists_place_of_mem hd hdname
  -- The places of the names that have been emitted.
  let places := (List.range declarations.length).filter
    fun place => decide (∀ a, nameAt? declarations place = some a → a ∈ emitted)
  have hplaces : ∀ {w b}, nameAt? declarations w = some b → (w ∈ places ↔ b ∈ emitted) := by
    intro w b hb
    simp [places, lt_length_of_nameAt? hb, hb]
  have hlt : v < List.length (referenceGraph declarations) := by
    rw [length_referenceGraph]
    exact lt_length_of_nameAt? hv
  obtain ⟨w, hw, hreach, hwleft, hlowest⟩ :=
    SchemaCodecs.exists_lowest (closed_referenceGraph declarations) hlt (mt (hplaces hv).1 hnew)
  rw [length_referenceGraph] at hw
  obtain ⟨low, hlow⟩ := h.exists_nameAt? hw
  refine ⟨low, (h.reach_iff hv hlow).1 hreach,
    ⟨isDeclared_of_nameAt? hlow, mt (hplaces hlow).2 hwleft⟩, ?_⟩
  intro other hother hnew'
  obtain ⟨e, he, hename⟩ := isDeclared_of_reflTransGen (isDeclared_of_nameAt? hlow) hother
  obtain ⟨u, hu⟩ := exists_place_of_mem he hename
  exact (h.together_iff hlow hu).1
    (hlowest u ((h.reach_iff hlow hu).2 hother) (mt (hplaces hu).1 hnew'))

/-- **No early start.**  If no name of a cycle is ever ahead of what the others wait for, all of them
could start the cycle when it starts. -/
theorem IsComponent.outsideEmitted_of_neverAhead (h : NamedApart declarations)
    (hcycle : IsComponent declarations cycle) (two : 2 ≤ cycle.length) (hfirst : first ∈ cycle)
    (new : ∀ member ∈ cycle, member ∉ front) (emits : Emits declarations front first)
    (never : NeverAhead declarations cycle) :
    ∀ member ∈ cycle, OutsideEmitted declarations cycle front member := by
  intro member hmember other hrefers hother
  by_contra hnew
  obtain ⟨stuck, houtside, hlowest⟩ := hcycle.breaking two hfirst new emits
  have hloops : LoopsBelow declarations first other := by
    refine never first hfirst member hmember other hrefers hother fun hrefers' => ?_
    exact hnew (houtside other hrefers' hother)
  obtain ⟨low, hway, hleft, hback⟩ := h.exists_lowest ⟨hrefers.2, hnew⟩
  -- The names that are left behind the lowest one could be taken, so they are above the first name.
  let behind : Set Text := {a | ReflTransGen (Refers declarations) low a ∧ a ∉ front}
  have hdeclared : ∀ a ∈ behind, IsDeclared declarations a :=
    fun a ha => isDeclared_of_reflTransGen hleft.1 ha.1
  have habove : ∀ a ∈ behind, first < a := by
    intro a ha
    have hown : WaitsForOwn declarations front a := by
      intro b hb
      by_cases hmem : b ∈ front
      · exact Or.inl hmem
      · obtain ⟨hla, hal⟩ := hback a ha.1 ha.2
        obtain ⟨hlb, hbl⟩ := hback b (ha.1.tail hb) hmem
        exact Or.inr ⟨hal.trans hlb, hbl.trans hla⟩
    refine lt_of_le_of_ne (hlowest a ⟨hdeclared a ha, ha.2⟩ hown) ?_
    rintro rfl
    -- Otherwise what is outside would lead back into the cycle.
    obtain ⟨-, hto, hfrom⟩ := (hcycle.mem_iff first hfirst member).1 hmember
    refine hother ((hcycle.mem_iff first hfirst other).2 ⟨hrefers.2, hto.tail hrefers, ?_⟩)
    exact hway.trans ha.1
  have hfollow : ∀ a ∈ behind, ∃ b ∈ behind,
      Refers declarations a b ∧ a ≠ b ∧ first < a ∧ first < b := by
    intro a ha
    have hno := stuck a ⟨hdeclared a ha, ha.2⟩
    rw [IsFree] at hno
    push Not at hno
    obtain ⟨b, hb, hne, hmem⟩ := hno
    have hbehind : b ∈ behind := ⟨ha.1.tail hb, hmem⟩
    exact ⟨b, hbehind, hb, hne.symm, habove a ha, habove b hbehind⟩
  obtain ⟨a, ha, hloop⟩ := exists_loop
    ((finite_isDeclared declarations).subset hdeclared) ⟨low, .refl, hleft.2⟩ hfollow
  exact hloops a (hway.trans ha.1) hloop

/-- **The start of a cycle.**  A reported cycle of two or more names starts when nothing that its first
name refers to outside is missing, at the lowest of the names for which this is so.  All that the
cycle refers to outside comes before it and it starts at its lowest name exactly if nothing that any of
its names refers to outside is missing at its start; so it is if no name of the cycle is ever ahead of
what the others wait for. -/
theorem cycle_start (h : NamedApart declarations) (hsort : sort declarations = .ok sorted)
    (hcycle : cycle ∈ sorted.cycles) (two : 2 ≤ cycle.length) :
    ∃ front first back,
      sorted.declarations.map (·.name) = (front ++ first :: back).map Scalar.text ∧
      first ∈ cycle ∧ (∀ member ∈ cycle, member ∉ front) ∧
      OutsideEmitted declarations cycle front first ∧
      (∀ member ∈ cycle, OutsideEmitted declarations cycle front member → first ≤ member) ∧
      (WaitsForOutside declarations (front ++ first :: back) cycle ∧
          LowestFirst (front ++ first :: back) cycle ↔
        ∀ member ∈ cycle, OutsideEmitted declarations cycle front member) ∧
      (NeverAhead declarations cycle →
        WaitsForOutside declarations (front ++ first :: back) cycle ∧
          LowestFirst (front ++ first :: back) cycle) := by
  obtain ⟨a⟩ := exists_arrangement_of_sort h hsort
  have hcomponent := ((a.mem_cycles_iff h).1 hcycle).isComponent
  obtain ⟨order, hnames, hgreedy⟩ := exists_greedy_of_sort h hsort
  obtain ⟨member, hmember⟩ := List.exists_mem_of_ne_nil _ hcomponent.nonempty
  have hdeclared := ((hcomponent.mem_iff member hmember member).1 hmember).1
  obtain ⟨front, first, back, rfl, hfirst, new⟩ :=
    exists_first hmember (hgreedy.mem ⟨hdeclared, List.not_mem_nil⟩)
  have hemits := hgreedy.emits
  obtain ⟨-, houtside, hlowest⟩ := hcomponent.breaking two hfirst new hemits
  have hiff : WaitsForOutside declarations (front ++ first :: back) cycle ∧
      LowestFirst (front ++ first :: back) cycle ↔
        ∀ member ∈ cycle, OutsideEmitted declarations cycle front member :=
    hcomponent.startsWell_iff two hfirst new hemits
  refine ⟨front, first, back, hnames, hfirst, new, houtside, fun member hmember hemitted => ?_, hiff,
    fun never => ?_⟩
  · exact hlowest member (hcomponent.isLeft hfirst new hmember)
      ((hcomponent.waitsForOwn_iff hmember).2 hemitted)
  · exact hiff.2 (hcomponent.outsideEmitted_of_neverAhead h two hfirst new hemits never)

/-! ## A cycle that starts as it should -/

namespace Directory

/-- What the declarations refer to. -/
theorem mem_of_refers {a b : Text} (h : Refers given a b) :
    (a, b) ∈ ([("directory", "entry"), ("directory", "label"), ("entry", "directory"),
      ("entry", "person"), ("person", "account"), ("account", "person")] : List (Text × Text)) := by
  obtain ⟨⟨d, hd, hname, hmention⟩, e, he, hename⟩ := h
  have hreference := (Declaration.mem_references_iff d b).2 hmention
  have hall : ∀ d ∈ given, ∀ b ∈ d.references, ∀ e ∈ given, e.name = .text b →
      (d.name, b) ∈ ([(.text "directory", "entry"), (.text "directory", "label"),
        (.text "entry", "directory"), (.text "entry", "person"), (.text "person", "account"),
        (.text "account", "person")] : List (Scalar × Text)) := by
    decide +kernel
  simpa [hname] using hall d hd b hreference e he hename

/-- The loop of persons and accounts goes through a name that is not above directories and entries. -/
theorem neverAhead_given : NeverAhead given ["directory", "entry"] := by
  intro member hmember name hname other hrefers hother _ a hway hloop
  -- Outside of the cycle only labels, persons and accounts are reached.
  have hclosed : ∀ a, ReflTransGen (Refers given) other a →
      a ∈ (["label", "person", "account"] : List Text) := by
    intro a hway
    induction hway with
    | refl =>
      have hmem := mem_of_refers hrefers
      simp only [List.mem_cons, Prod.mk.injEq, List.not_mem_nil, or_false] at hmem hname hother ⊢
      tauto
    | tail _ hstep ih =>
      have hmem := mem_of_refers hstep
      simp only [List.mem_cons, Prod.mk.injEq, List.not_mem_nil, or_false] at hmem ih ⊢
      rcases ih with rfl | rfl | rfl <;> simp at hmem <;> simp [hmem]
  obtain ⟨c, ⟨hstep, -, hbelow, hbelow'⟩, -⟩ := TransGen.head'_iff.1 hloop
  have hmem := mem_of_refers hstep
  have ha := hclosed a hway
  have haccount : a = "account" ∨ c = "account" := by
    simp only [List.mem_cons, Prod.mk.injEq, List.not_mem_nil, or_false] at hmem ha
    rcases ha with rfl | rfl | rfl <;> simp at hmem <;> simp [hmem]
  have hlow : ¬ member < "account" := by
    simp only [List.mem_cons, List.not_mem_nil, or_false] at hmember
    rcases hmember with rfl | rfl <;> decide
  rcases haccount with rfl | rfl
  · exact hlow hbelow
  · exact hlow hbelow'

/-- Directories and entries come after labels and persons, directories first. -/
theorem cycle_start_directory : NamedApart given ∧ sort given = .ok arranged ∧
    (["directory", "entry"] : List Text) ∈ arranged.cycles ∧ NeverAhead given ["directory", "entry"] ∧
    ∃ front first back,
      arranged.declarations.map (·.name) = (front ++ first :: back).map Scalar.text ∧
      first ∈ (["directory", "entry"] : List Text) ∧
      WaitsForOutside given (front ++ first :: back) ["directory", "entry"] ∧
      LowestFirst (front ++ first :: back) ["directory", "entry"] := by
  have hcycle : (["directory", "entry"] : List Text) ∈ arranged.cycles := by simp [arranged]
  obtain ⟨front, first, back, hnames, hfirst, -, -, -, -, hstart⟩ :=
    cycle_start namedApart_given sort_given hcycle (by decide)
  exact ⟨namedApart_given, sort_given, hcycle, neverAhead_given, front, first, back, hnames, hfirst,
    hstart neverAhead_given⟩

end Directory

/-! ## A cycle that starts too early -/

namespace Invoices

/-- Invoices and their lines refer to each other, and so do products and their suppliers; invoices also
refer to products. -/
def given : List Declaration :=
  [⟨.text "invoice", .record [⟨.text "lines", .array (.identifier "line"), false⟩,
      ⟨.text "gift", .identifier "product", true⟩], .scalar (.bool true)⟩,
   ⟨.text "line", .record [⟨.text "invoice", .identifier "invoice", false⟩], .scalar (.bool true)⟩,
   ⟨.text "product", .record [⟨.text "supplier", .identifier "supplier", false⟩],
      .scalar (.bool true)⟩,
   ⟨.text "supplier", .record [⟨.text "products", .array (.identifier "product"), false⟩],
      .scalar (.bool true)⟩]

/-- The declarations in order. -/
def arranged : Sorted where
  declarations :=
    [⟨.text "line", .record [⟨.text "invoice", .identifier "invoice", false⟩], .scalar (.bool true)⟩,
     ⟨.text "product", .record [⟨.text "supplier", .identifier "supplier", false⟩],
        .scalar (.bool true)⟩,
     ⟨.text "invoice", .record [⟨.text "lines", .array (.identifier "line"), false⟩,
        ⟨.text "gift", .identifier "product", true⟩], .scalar (.bool true)⟩,
     ⟨.text "supplier", .record [⟨.text "products", .array (.identifier "product"), false⟩],
        .scalar (.bool true)⟩]
  cycles := [["invoice", "line"], ["product", "supplier"]]
  broken := ["line", "product"]

theorem namedApart_given : NamedApart given where
  text := by simp [given]
  apart := by decide

/-- The declarations are sorted so. -/
theorem sort_given : sort given = .ok arranged := by
  have complete : Complete given := by
    unfold Complete given
    decide
  have hgraph : referenceGraph given = [[1, 2], [0], [3], [2]] := by decide +kernel
  have hfound : components [[1, 2], [0], [3], [2]] = some [[1, 0], [3, 2]] := by cbv
  have hreleased : (releaseAll [[1, 2], [0], [3], [2]] (componentOf [[1, 0], [3, 2]])
      (nameAt? given) (Progress.start [[1, 2], [0], [3], [2]])).toOption.map
        (fun last => (last.released, last.broken)) = some ([3, 0, 2, 1], [2, 1]) := by cbv
  have hcycles : cyclesOf [[1, 2], [0], [3], [2]] [[1, 0], [3, 2]] (nameAt? given)
      = ([["invoice", "line"], ["product", "supplier"]] : List (List Text)) := by
    have hcomponents : [[1, 0], [3, 2]].filter (isCycle [[1, 2], [0], [3], [2]])
        = [[1, 0], [3, 2]] := by decide
    have hfirst : [1, 0].filterMap (nameAt? given) = (["line", "invoice"] : List Text) := rfl
    have hsecond : [3, 2].filterMap (nameAt? given) = (["supplier", "product"] : List Text) := rfl
    have hinvoice : ¬ ("line" : Text) ≤ "invoice" := by decide
    have hproduct : ¬ ("supplier" : Text) ≤ "product" := by decide
    have hheads : ("invoice" : Text) ≤ "product" := by decide
    rw [cyclesOf, hcomponents, List.map_cons, List.map_singleton, hfirst, hsecond]
    simp [List.mergeSort, List.MergeSort.Internal.splitInTwo, hinvoice, hproduct, hheads]
  rw [sort_eq_of_released namedApart_given complete hgraph hfound hreleased (by decide), hcycles]
  rfl

/-- **A cycle that starts too early.**  Lines come before products, although invoices refer to products;
and the cycle of invoices and lines does not start at invoices. -/
theorem cycle_starts_early : NamedApart given ∧ sort given = .ok arranged ∧
    (["invoice", "line"] : List Text) ∈ arranged.cycles ∧
    arranged.declarations.map (·.name)
      = (["line", "product", "invoice", "supplier"] : List Text).map Scalar.text ∧
    ¬ WaitsForOutside given ["line", "product", "invoice", "supplier"] ["invoice", "line"] ∧
    ¬ LowestFirst ["line", "product", "invoice", "supplier"] ["invoice", "line"] := by
  refine ⟨namedApart_given, sort_given, by simp [arranged], rfl, fun hwaits => ?_, fun hlowest => ?_⟩
  · have hmention : TypeExpr.Mentions "product" (.record
        [⟨.text "lines", .array (.identifier "line"), false⟩,
          ⟨.text "gift", .identifier "product", true⟩]) :=
      .record (List.mem_cons_of_mem _ List.mem_cons_self) .identifier
    have hrefers : Refers given "invoice" "product" :=
      ⟨⟨_, List.mem_cons_self, rfl, hmention⟩, _,
        List.mem_cons_of_mem _ (List.mem_cons_of_mem _ List.mem_cons_self), rfl⟩
    have hbefore := hwaits "invoice" (by decide) "product" hrefers (by decide) "line" (by decide)
    exact absurd hbefore (by unfold Before; decide)
  · have hbefore := hlowest "invoice" (by decide) (by decide) "line" (by decide) (by decide)
    exact absurd hbefore (by unfold Before; decide)

end Invoices

end SchemaCodecs.Order
