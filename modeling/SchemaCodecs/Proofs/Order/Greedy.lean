/-
# The greedy order

Counters and a list of ready declarations make sorting fast, but the order is that of a plain rule on
the names emitted so far: of the declarations that mention no other name that is still missing, emit
the earliest; when there is none, emit the lowest name whose missing names all lie in its own
component.  The rule determines the order, so the order of the dependencies does not matter.

* `Emits`, `Greedy` : the rule, and the names in the order in which it emits them;
* `Greedy.unique` : there is one such order;
* `greedy_of_taken` : the order of release is greedy;
* `sort_eq_greedy` : the sorted declarations are in the greedy order.
-/
import SchemaCodecs.Proofs.Order.Groups
import SchemaCodecs.Proofs.Order.Taking

namespace SchemaCodecs.Order

open Relation

variable {declarations : List Declaration} {emitted released : List Text} {name other : Text}

/-! ## The rule -/

/-- All other declared names that the declaration of a name mentions have been emitted. -/
def IsFree (declarations : List Declaration) (emitted : List Text) (name : Text) : Prop :=
  ∀ other, Refers declarations name other → other ≠ name → other ∈ emitted

/-- All declared names that the declaration of a name mentions have been emitted or lie in its own
component. -/
def WaitsForOwn (declarations : List Declaration) (emitted : List Text) (name : Text) : Prop :=
  ∀ other, Refers declarations name other → other ∈ emitted ∨ Linked declarations name other

/-- A declared name that has not been emitted. -/
def IsLeft (declarations : List Declaration) (emitted : List Text) (name : Text) : Prop :=
  IsDeclared declarations name ∧ name ∉ emitted

/-- The name that is emitted next, after some names have been emitted. -/
inductive Emits (declarations : List Declaration) (emitted : List Text) (name : Text) : Prop where
  /-- It is free, and no free name is declared before it. -/
  | free {place : Nat} (declared : nameAt? declarations place = some name) (left : name ∉ emitted)
      (free : IsFree declarations emitted name)
      (first : ∀ other earlier, nameAt? declarations earlier = some other → other ∉ emitted →
        IsFree declarations emitted other → place ≤ earlier)
  /-- No name is free, and it is the lowest of those that wait only for their own component. -/
  | breaking (left : IsLeft declarations emitted name)
      (stuck : ∀ other, IsLeft declarations emitted other → ¬ IsFree declarations emitted other)
      (waits : WaitsForOwn declarations emitted name)
      (lowest : ∀ other, IsLeft declarations emitted other →
        WaitsForOwn declarations emitted other → name ≤ other)

/-- Some names are all that is left, in the order in which the rule emits them. -/
inductive Greedy (declarations : List Declaration) : List Text → List Text → Prop where
  /-- All names have been emitted. -/
  | done {emitted : List Text} (all : ∀ name, ¬ IsLeft declarations emitted name) :
    Greedy declarations emitted []
  /-- The next name is emitted. -/
  | emit {emitted rest : List Text} {name : Text} (emits : Emits declarations emitted name)
      (greedy : Greedy declarations (name :: emitted) rest) :
    Greedy declarations emitted (name :: rest)

/-! ## The rule determines the order -/

theorem isDeclared_of_nameAt? {place : Nat} (h : nameAt? declarations place = some name) :
    IsDeclared declarations name := by
  obtain ⟨d, hd, hname⟩ := nameAt?_eq_some_iff.1 h
  exact ⟨d, List.mem_of_getElem? hd, hname⟩

theorem Emits.isLeft (h : Emits declarations emitted name) : IsLeft declarations emitted name := by
  cases h with
  | free declared left _ _ => exact ⟨isDeclared_of_nameAt? declared, left⟩
  | breaking left _ _ _ => exact left

/-- One name is emitted next. -/
theorem Emits.unique (h : Emits declarations emitted name) (h' : Emits declarations emitted other) :
    name = other := by
  cases h with
  | free declared left free first =>
    cases h' with
    | free declared' left' free' first' =>
      have hplaces := Nat.le_antisymm (first _ _ declared' left' free')
        (first' _ _ declared left free)
      rw [hplaces, declared'] at declared
      exact (Option.some.inj declared).symm
    | breaking _ stuck _ _ => exact absurd free (stuck _ ⟨isDeclared_of_nameAt? declared, left⟩)
  | breaking left stuck waits lowest =>
    cases h' with
    | free declared left' free _ =>
      exact absurd free (stuck _ ⟨isDeclared_of_nameAt? declared, left'⟩)
    | breaking left' _ waits' lowest' =>
      exact le_antisymm (lowest _ left' waits') (lowest' _ left waits)

/-- **One order.**  The rule emits the names that are left in one order. -/
theorem Greedy.unique {first second : List Text} (h : Greedy declarations emitted first)
    (h' : Greedy declarations emitted second) : first = second := by
  induction h generalizing second with
  | done all =>
    cases h' with
    | done _ => rfl
    | emit emits _ => exact absurd emits.isLeft (all _)
  | emit emits _ ih =>
    cases h' with
    | done all => exact absurd emits.isLeft (all _)
    | emit emits' greedy' =>
      obtain rfl := emits.unique emits'
      rw [ih greedy']

/-! ## From places to names -/

namespace NamedApart

variable (h : NamedApart declarations) {places : List Nat} {v w : Nat} {a b : Text}

include h

/-- A name is among those of some places if its place is one of them. -/
theorem mem_filterMap_iff (ha : nameAt? declarations v = some a) :
    a ∈ places.filterMap (nameAt? declarations) ↔ v ∈ places := by
  rw [List.mem_filterMap]
  constructor
  · rintro ⟨w, hw, hname⟩
    rwa [h.place_unique ha hname]
  · exact fun hv => ⟨v, hv, ha⟩

/-- A place leads to another if the name of the one leads to that of the other. -/
theorem reach_iff (ha : nameAt? declarations v = some a) (hb : nameAt? declarations w = some b) :
    (referenceGraph declarations).Reach v w ↔ ReflTransGen (Refers declarations) a b := by
  have hsame : w = v ↔ b = a := by
    constructor
    · rintro rfl
      exact Option.some.inj (hb.symm.trans ha)
    · rintro rfl
      exact h.place_unique hb ha
  rw [Graph.Reach, reflTransGen_iff_eq_or_transGen, reflTransGen_iff_eq_or_transGen,
    h.transGen_iff ha hb, hsame]

theorem together_iff (ha : nameAt? declarations v = some a) (hb : nameAt? declarations w = some b) :
    (referenceGraph declarations).Together v w ↔ Linked declarations a b := by
  rw [Graph.Together, Linked, h.reach_iff ha hb, h.reach_iff hb ha]

/-- The names that a declaration mentions are those of the places it refers to. -/
theorem forall_refers_iff (ha : nameAt? declarations v = some a) {P : Text → Prop} :
    (∀ b, Refers declarations a b → P b) ↔
      ∀ w ∈ (referenceGraph declarations).next v, ∀ b, nameAt? declarations w = some b → P b := by
  constructor
  · intro hall w hw b hb
    exact hall b ((h.step_iff ha hb).1 hw)
  · rintro hall b hrefers
    obtain ⟨-, d, hd, hname⟩ := id hrefers
    obtain ⟨w, hw⟩ := exists_place_of_mem hd hname
    exact hall w ((h.step_iff ha hw).2 hrefers) b hw

theorem exists_nameAt?_of_mem_next (hw : w ∈ (referenceGraph declarations).next v) :
    ∃ b, nameAt? declarations w = some b := by
  refine h.exists_nameAt? ?_
  rw [← length_referenceGraph]
  exact closed_referenceGraph declarations v w hw

/-- A place waits for nothing if its name is free. -/
theorem waiting_eq_nil_iff (ha : nameAt? declarations v = some a) :
    waiting (referenceGraph declarations) places v = [] ↔
      IsFree declarations (places.filterMap (nameAt? declarations)) a := by
  rw [IsFree, h.forall_refers_iff ha]
  simp only [List.eq_nil_iff_forall_not_mem, mem_waiting_iff, not_and, not_not]
  refine forall_congr' fun w => forall_congr' fun hw => ?_
  obtain ⟨b, hb⟩ := h.exists_nameAt?_of_mem_next hw
  have hne : w ≠ v ↔ b ≠ a := by
    refine not_congr ⟨?_, ?_⟩
    · rintro rfl
      exact Option.some.inj (hb.symm.trans ha)
    · rintro rfl
      exact h.place_unique hb ha
  simp only [hb, Option.some.injEq, forall_eq', h.mem_filterMap_iff hb, hne]

/-- A place waits only for its own component if its name does. -/
theorem waitsWithin_iff (ha : nameAt? declarations v = some a) :
    (referenceGraph declarations).WaitsWithin places v ↔
      WaitsForOwn declarations (places.filterMap (nameAt? declarations)) a := by
  rw [WaitsForOwn, h.forall_refers_iff ha]
  refine forall_congr' fun w => forall_congr' fun hw => ?_
  obtain ⟨b, hb⟩ := h.exists_nameAt?_of_mem_next hw
  simp only [hb, Option.some.injEq, forall_eq', h.mem_filterMap_iff hb, h.together_iff ha hb]

/-- A place remains if its name is left. -/
theorem remains_iff (ha : nameAt? declarations v = some a) :
    Remains (referenceGraph declarations) places v ↔
      IsLeft declarations (places.filterMap (nameAt? declarations)) a := by
  simp only [Remains, IsLeft, length_referenceGraph, lt_length_of_nameAt? ha,
    isDeclared_of_nameAt? ha, h.mem_filterMap_iff ha, true_and]

/-- A name that is left is that of a place that remains. -/
theorem exists_remains (hleft : IsLeft declarations (places.filterMap (nameAt? declarations)) b) :
    ∃ w, nameAt? declarations w = some b ∧ Remains (referenceGraph declarations) places w := by
  obtain ⟨d, hd, hname⟩ := hleft.1
  obtain ⟨w, hw⟩ := exists_place_of_mem hd hname
  exact ⟨w, hw, (h.remains_iff hw).2 hleft⟩

/-- The name of the node that is released next is emitted next. -/
theorem emits_of_takes (ha : nameAt? declarations v = some a)
    (takes : Takes (referenceGraph declarations) (nameAt? declarations) places v) :
    Emits declarations (places.filterMap (nameAt? declarations)) a := by
  cases takes with
  | free remains free first =>
    refine .free ha ((h.remains_iff ha).1 remains).2 ((h.waiting_eq_nil_iff ha).1 free) ?_
    intro other earlier hother hleft hfree
    have hremains := (h.remains_iff hother).2 ⟨isDeclared_of_nameAt? hother, hleft⟩
    exact first earlier hremains ((h.waiting_eq_nil_iff hother).2 hfree)
  | breaking remains stuck within lowest =>
    refine .breaking ((h.remains_iff ha).1 remains) ?_ ((h.waitsWithin_iff ha).1 within) ?_
    · intro other hleft hfree
      obtain ⟨w, hw, hremains⟩ := h.exists_remains hleft
      exact stuck w hremains ((h.waiting_eq_nil_iff hw).2 hfree)
    · intro other hleft hwaits
      obtain ⟨w, hw, hremains⟩ := h.exists_remains hleft
      exact lowest w hremains ((h.waitsWithin_iff hw).2 hwaits) a other ha hw

/-- **The order of release is greedy.** -/
theorem greedy_of_taken
    (taken : Taken (referenceGraph declarations) (nameAt? declarations) places)
    (hplaces : ∀ place ∈ places, place < declarations.length) {rest : List Text}
    (greedy : Greedy declarations (places.filterMap (nameAt? declarations)) rest) :
    Greedy declarations [] (places.reverse.filterMap (nameAt? declarations) ++ rest) := by
  -- The names released last stand before those that are emitted afterwards.
  induction taken generalizing rest with
  | nil => exact greedy
  | @cons earlier place takes _ ih =>
    obtain ⟨hplace, hearlier⟩ := List.forall_mem_cons.1 hplaces
    obtain ⟨own, hown⟩ := h.exists_nameAt? hplace
    rw [List.filterMap_cons, hown] at greedy
    have hnext := ih hearlier (.emit (h.emits_of_takes hown takes) greedy)
    rw [List.reverse_cons, List.filterMap_append, List.append_assoc, List.filterMap_cons, hown,
      List.filterMap_nil]
    exact hnext

/-- Places with the same names are the same. -/
theorem eq_of_filterMap_nameAt? {others : List Nat}
    (hplaces : ∀ place ∈ places, place < declarations.length)
    (hothers : ∀ place ∈ others, place < declarations.length)
    (heq : places.filterMap (nameAt? declarations) = others.filterMap (nameAt? declarations)) :
    places = others := by
  induction places generalizing others with
  | nil =>
    cases others with
    | nil => rfl
    | cons second rest =>
      obtain ⟨b, hb⟩ := h.exists_nameAt? (hothers second List.mem_cons_self)
      rw [List.filterMap_cons, hb] at heq
      cases heq
  | cons first places ih =>
    obtain ⟨hfirst, hplaces⟩ := List.forall_mem_cons.1 hplaces
    obtain ⟨a, ha⟩ := h.exists_nameAt? hfirst
    rw [List.filterMap_cons, ha] at heq
    cases others with
    | nil => cases heq
    | cons second rest =>
      obtain ⟨hsecond, hothers⟩ := List.forall_mem_cons.1 hothers
      obtain ⟨b, hb⟩ := h.exists_nameAt? hsecond
      rw [List.filterMap_cons, hb] at heq
      obtain ⟨rfl, hrest⟩ := List.cons.inj heq
      rw [h.place_unique ha hb, ih hplaces hothers hrest]

/-- The names of the declarations at some places. -/
theorem map_name_filterMap (hplaces : ∀ place ∈ places, place < declarations.length) :
    (places.filterMap (declarations[·]?)).map (·.name)
      = (places.filterMap (nameAt? declarations)).map Scalar.text := by
  induction places with
  | nil => rfl
  | cons place rest ih =>
    obtain ⟨hplace, hrest⟩ := List.forall_mem_cons.1 hplaces
    obtain ⟨a, ha⟩ := h.exists_nameAt? hplace
    obtain ⟨d, hd, hname⟩ := nameAt?_eq_some_iff.1 ha
    rw [List.filterMap_cons, hd, List.filterMap_cons, ha, List.map_cons, List.map_cons, ih hrest,
      hname]

/-- **All orders of the dependencies.**  For the references in any order the declarations are released
in the greedy order. -/
theorem exists_greedy_release {found : List (List Nat)}
    (hcomponents : AreComponents (referenceGraph declarations) found) {graph : Graph}
    (same : SameReferences (referenceGraph declarations) graph) :
    ∃ last, releaseAll graph (componentOf found) (nameAt? declarations) (Progress.start graph)
        = .ok last ∧
      (∀ place ∈ last.released.reverse, place < declarations.length) ∧
      Greedy declarations [] (last.released.reverse.filterMap (nameAt? declarations)) := by
  have hlength : List.length graph = declarations.length := by
    rw [← same.length_eq, length_referenceGraph]
  have hnamed : ∀ place < List.length graph, ∃ name, nameAt? declarations place = some name :=
    fun place hplace => h.exists_nameAt? (hlength ▸ hplace)
  obtain ⟨last, hlast, htaken, hperm⟩ := exists_taken (same.closed (closed_referenceGraph declarations))
    (same.distinct (nodup_next_referenceGraph declarations)) (same.areComponents hcomponents) hnamed
  rw [hlength] at hperm
  have hplaces : ∀ place ∈ last.released, place < declarations.length :=
    fun place hplace => List.mem_range.1 (hperm.subset hplace)
  refine ⟨last, hlast, fun place hplace => hplaces place (List.mem_reverse.1 hplace), ?_⟩
  have hdone : Greedy declarations (last.released.filterMap (nameAt? declarations)) [] := by
    refine .done fun name hleft => ?_
    obtain ⟨place, hname, hplace, hremains⟩ := h.exists_remains hleft
    rw [length_referenceGraph] at hplace
    exact hremains (hperm.mem_iff.2 (List.mem_range.2 hplace))
  have hgreedy := h.greedy_of_taken (htaken.congr same.symm) hplaces hdone
  rwa [List.append_nil] at hgreedy

end NamedApart

/-! ## Sorting -/

/-- The names of the sorted declarations are in the greedy order. -/
theorem exists_greedy_of_sort {sorted : Sorted} (h : NamedApart declarations)
    (hsort : sort declarations = .ok sorted) :
    ∃ order : List Text, sorted.declarations.map (·.name) = order.map Scalar.text ∧
      Greedy declarations [] order := by
  obtain ⟨found, hfound, hcomponents⟩ := exists_components (closed_referenceGraph declarations)
  obtain ⟨last, hlast, hplaces, hgreedy⟩ := h.exists_greedy_release hcomponents (.refl _)
  have hsorted := sort_eq_of_releaseAll h (complete_of_sort hsort) hfound hlast
    fun place hplace => hplaces place (List.mem_reverse.2 hplace)
  obtain rfl := Except.ok.inj (hsort.symm.trans hsorted)
  exact ⟨_, h.map_name_filterMap hplaces, hgreedy⟩

/-- **The greedy order.**  Complete declarations of different names are sorted, and the order is the
only one in which the rule emits all names.  Whatever the order in which the references of each
declaration are gone through, the table of dependents is the one that is used, and the declarations
are released in this order. -/
theorem sort_eq_greedy (h : NamedApart declarations) (complete : Complete declarations) :
    ∃ sorted order, sort declarations = .ok sorted ∧
      sorted.declarations.map (·.name) = order.map Scalar.text ∧
      (∀ names, Greedy declarations [] names ↔ names = order) ∧
      ∃ found, components (referenceGraph declarations) = some found ∧
        ∀ graph, SameReferences (referenceGraph declarations) graph →
          (∀ place, ((fillDependents graph).lookup place).getD [] = graph.dependents place) ∧
          ∃ last, releaseAll graph (componentOf found) (nameAt? declarations) (Progress.start graph)
              = .ok last ∧
            last.released.reverse.filterMap (declarations[·]?) = sorted.declarations := by
  have hclosed := closed_referenceGraph declarations
  obtain ⟨found, hfound, hcomponents⟩ := exists_components hclosed
  obtain ⟨last, hlast, hplaces, hgreedy⟩ := h.exists_greedy_release hcomponents (.refl _)
  refine ⟨_, _, sort_eq_of_releaseAll h complete hfound hlast
    fun place hplace => hplaces place (List.mem_reverse.2 hplace),
    h.map_name_filterMap hplaces, fun names => ⟨fun hnames => hnames.unique hgreedy, ?_⟩,
    found, hfound, fun graph same => ⟨?_, ?_⟩⟩
  · rintro rfl
    exact hgreedy
  · exact lookup_fillDependents (same.distinct (nodup_next_referenceGraph declarations))
  · obtain ⟨other, hother, hplaces', hgreedy'⟩ := h.exists_greedy_release hcomponents same
    refine ⟨other, hother, ?_⟩
    rw [h.eq_of_filterMap_nameAt? hplaces' hplaces (hgreedy'.unique hgreedy)]

/-- Directories and persons are sorted in the greedy order, also when the references of directories and
of entries are gone through in the other direction. -/
theorem Directory.sort_eq_greedy_given : NamedApart given ∧ Complete given ∧
    SameReferences (referenceGraph given) [[4, 1], [2, 0], [3], [2], []] ∧
    (∀ names, Greedy given [] names ↔
      names = (["label", "account", "person", "directory", "entry"] : List Text)) ∧
    ∃ found, components (referenceGraph given) = some found ∧
      ∃ last, releaseAll [[4, 1], [2, 0], [3], [2], []] (componentOf found) (nameAt? given)
          (Progress.start [[4, 1], [2, 0], [3], [2], []]) = .ok last ∧
        last.released.reverse.filterMap (given[·]?) = arranged.declarations := by
  have hgraph : referenceGraph given = graph := by decide +kernel
  have hsame : SameReferences (referenceGraph given) [[4, 1], [2, 0], [3], [2], []] := by
    rw [hgraph]
    exact .cons (.swap _ _ _) (.cons (.swap _ _ _)
      (.cons (.refl _) (.cons (.refl _) (.cons (.refl _) .nil))))
  obtain ⟨sorted, order, hsort, hnames, hgreedy, found, hfound, hreleased⟩ :=
    sort_eq_greedy namedApart_given complete_given
  obtain rfl := Except.ok.inj (sort_given.symm.trans hsort)
  have horder : (["label", "account", "person", "directory", "entry"] : List Text) = order :=
    List.map_injective_iff.2 (fun _ _ => Scalar.text.inj) hnames
  subst horder
  exact ⟨namedApart_given, complete_given, hsame, hgreedy, found, hfound, (hreleased _ hsame).2⟩

end SchemaCodecs.Order
