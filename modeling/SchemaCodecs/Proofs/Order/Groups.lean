/-
# Recursive groups

Declarations that lead back to themselves by references form groups.  The cycles that come with a
sorted list are these groups, each in ascending order and in the order of their first names; so they
do not depend on the order in which the declarations were given.

* `IsGroup` : the names that lead to each other;
* `Arrangement.mem_cycles_iff`, `Arrangement.pairwise_cycles` : what the cycles are;
* `cycles_eq_of_perm` : declarations in another order have the same cycles;
* `IsComponent`, `isGroup_iff` : the groups are the strongly connected components that are recursive.
-/
import SchemaCodecs.Proofs.Order.Sorting
import SchemaCodecs.Proofs.Text.Points

namespace SchemaCodecs.Order

open Relation

variable {declarations : List Declaration} {sorted : Sorted}

/-! ## References between names -/

theorem NamedApart.of_perm {other : List Declaration} (h : NamedApart declarations)
    (hperm : declarations.Perm other) : NamedApart other where
  text d hd := h.text d (hperm.mem_iff.2 hd)
  apart := (hperm.map _).nodup_iff.1 h.apart

/-- The declaration of one name mentions the name of another declaration. -/
def Refers (declarations : List Declaration) (a b : Text) : Prop :=
  (∃ d ∈ declarations, d.name = .text a ∧ d.type.Mentions b) ∧
    ∃ e ∈ declarations, e.name = .text b

theorem refers_eq_of_perm {other : List Declaration} (h : declarations.Perm other) :
    Refers declarations = Refers other := by
  funext a b
  simp only [Refers, h.mem_iff]

theorem nameAt?_eq_some_iff {place : Nat} {name : Text} :
    nameAt? declarations place = some name ↔
      ∃ d, declarations[place]? = some d ∧ d.name = .text name := by
  simp only [nameAt?, Option.bind_eq_some_iff, text?_eq_some_iff]

theorem lt_length_of_nameAt? {place : Nat} {name : Text}
    (h : nameAt? declarations place = some name) : place < declarations.length := by
  obtain ⟨d, hd, -⟩ := nameAt?_eq_some_iff.1 h
  exact (List.getElem?_eq_some_iff.1 hd).1

theorem exists_place_of_mem {d : Declaration} (hd : d ∈ declarations) {name : Text}
    (hname : d.name = .text name) : ∃ place, nameAt? declarations place = some name := by
  obtain ⟨place, hplace⟩ := List.mem_iff_getElem?.1 hd
  exact ⟨place, nameAt?_eq_some_iff.2 ⟨d, hplace, hname⟩⟩

/-- Different places have different names. -/
theorem NamedApart.place_unique (h : NamedApart declarations) {v w : Nat} {name : Text}
    (hv : nameAt? declarations v = some name) (hw : nameAt? declarations w = some name) : v = w := by
  obtain ⟨d, hd, hdname⟩ := nameAt?_eq_some_iff.1 hv
  obtain ⟨e, he, hename⟩ := nameAt?_eq_some_iff.1 hw
  have hplace := h.placeOf?_eq_some hd hdname
  rw [h.placeOf?_eq_some he hename] at hplace
  exact (Option.some.inj hplace).symm

/-- A reference between places is one between their names. -/
theorem NamedApart.step_iff (h : NamedApart declarations) {v w : Nat} {a b : Text}
    (ha : nameAt? declarations v = some a) (hb : nameAt? declarations w = some b) :
    (referenceGraph declarations).Step v w ↔ Refers declarations a b := by
  obtain ⟨d, hd, hdname⟩ := nameAt?_eq_some_iff.1 ha
  obtain ⟨e, he, hename⟩ := nameAt?_eq_some_iff.1 hb
  rw [Graph.Step, mem_next_iff h hd he hename]
  constructor
  · intro hmention
    exact ⟨⟨d, List.mem_of_getElem? hd, hdname, hmention⟩, e, List.mem_of_getElem? he, hename⟩
  · rintro ⟨⟨d', hd', hname, hmention⟩, -⟩
    -- There is one declaration of the name.
    obtain ⟨place, hplace⟩ := List.mem_iff_getElem?.1 hd'
    obtain rfl := h.place_unique ha (nameAt?_eq_some_iff.2 ⟨d', hplace, hname⟩)
    obtain rfl := Option.some.inj (hd.symm.trans hplace)
    exact hmention

/-- References lead from one place to another as they lead from the one name to the other. -/
theorem NamedApart.transGen_iff (h : NamedApart declarations) {v w : Nat} {a b : Text}
    (ha : nameAt? declarations v = some a) (hb : nameAt? declarations w = some b) :
    TransGen (referenceGraph declarations).Step v w ↔ TransGen (Refers declarations) a b := by
  constructor
  · intro hvw
    induction hvw generalizing b with
    | single hstep => exact .single ((h.step_iff ha hb).1 hstep)
    | @tail c w hvc hcw ih =>
      have hclosed := closed_referenceGraph declarations
      have hc : c < declarations.length := by
        rw [← length_referenceGraph]
        obtain ⟨u, -, huc⟩ := TransGen.tail'_iff.1 hvc
        exact hclosed u c huc
      obtain ⟨name, hname⟩ := h.exists_nameAt? hc
      exact (ih hname).tail ((h.step_iff hname hb).1 hcw)
  · intro hab
    induction hab generalizing w with
    | single hrefers => exact .single ((h.step_iff ha hb).2 hrefers)
    | tail hac hcb ih =>
      obtain ⟨⟨d, hd, hname, -⟩, -⟩ := id hcb
      obtain ⟨place, hplace⟩ := exists_place_of_mem hd hname
      exact (ih hplace).tail ((h.step_iff hplace hb).2 hcb)

/-! ## Groups -/

/-- Some names in ascending order that all lead to each other by references, with every name that
leads to them and back. -/
structure IsGroup (declarations : List Declaration) (names : List Text) : Prop where
  /-- There is a name. -/
  nonempty : names ≠ []
  /-- The names ascend. -/
  ascending : names.Pairwise (· < ·)
  /-- They lead to each other, and no other name does so. -/
  mem_iff : ∀ a ∈ names, ∀ b, b ∈ names ↔
    TransGen (Refers declarations) a b ∧ TransGen (Refers declarations) b a

theorem IsGroup.headD_mem {names : List Text} (h : IsGroup declarations names) :
    names.headD "" ∈ names := by
  obtain ⟨name, rest, rfl⟩ := List.exists_cons_of_ne_nil h.nonempty
  exact List.mem_cons_self

/-- The groups do not depend on the order of the declarations. -/
theorem isGroup_iff_of_perm {other : List Declaration} (h : declarations.Perm other)
    {names : List Text} : IsGroup declarations names ↔ IsGroup other names := by
  constructor
  · rintro ⟨nonempty, ascending, mem_iff⟩
    exact ⟨nonempty, ascending, refers_eq_of_perm h ▸ mem_iff⟩
  · rintro ⟨nonempty, ascending, mem_iff⟩
    exact ⟨nonempty, ascending, refers_eq_of_perm h ▸ mem_iff⟩

/-- Ascending lists with the same members are equal. -/
theorem eq_of_ascending {names others : List Text} (hnames : names.Pairwise (· < ·))
    (hothers : others.Pairwise (· < ·)) (hmem : ∀ a, a ∈ names ↔ a ∈ others) : names = others := by
  have hperm : names.Perm others :=
    (List.perm_ext_iff_of_nodup (hnames.imp ne_of_lt) (hothers.imp ne_of_lt)).2 hmem
  exact hperm.eq_of_pairwise (fun a b _ _ hab hba => absurd hba (lt_asymm hab)) hnames hothers

theorem IsGroup.eq_of_mem {names others : List Text} (h : IsGroup declarations names)
    (h' : IsGroup declarations others) {a : Text} (ha : a ∈ names) (ha' : a ∈ others) :
    names = others :=
  eq_of_ascending h.ascending h'.ascending fun b => by rw [h.mem_iff a ha, h'.mem_iff a ha']

/-! ## Components as groups -/

section Components

variable {graph : Graph} {components : List (List Nat)} {component : List Nat} {v w : Nat}

/-- In a component that is a cycle the nodes are those that lead to each other. -/
theorem mem_iff_of_isCycle (h : AreComponents graph components) (hcomponent : component ∈ components)
    (hcycle : isCycle graph component = true) (hv : v ∈ component) (w : Nat) :
    w ∈ component ↔ TransGen graph.Step v w ∧ TransGen graph.Step w v := by
  have htogether := (h.together component hcomponent).2
  have hloop : TransGen graph.Step v v := by
    match component with
    | [] => cases hv
    | [node] =>
      obtain rfl := List.mem_singleton.1 hv
      exact .single (List.contains_iff_mem.1 hcycle)
    | first :: second :: rest =>
      -- One of the first two nodes is another one.
      have hnodup := (List.nodup_flatten.1 h.nodup).1 _ hcomponent
      have hne : first ≠ second := by
        rintro rfl
        exact (List.nodup_cons.1 hnodup).1 List.mem_cons_self
      obtain ⟨u, hu, huv⟩ : ∃ u ∈ first :: second :: rest, u ≠ v := by
        by_cases hfirst : first = v
        · exact ⟨second, by simp, fun heq => hne (hfirst.trans heq.symm)⟩
        · exact ⟨first, by simp, hfirst⟩
      obtain ⟨hvu, huv'⟩ := (htogether v hv u).1 hu
      exact ((reflTransGen_iff_eq_or_transGen.1 hvu).resolve_left huv).trans_left huv'
  constructor
  · intro hw
    obtain ⟨hvw, hwv⟩ := (htogether v hv w).1 hw
    exact ⟨hloop.trans_left hvw, TransGen.trans_right hwv hloop⟩
  · rintro ⟨hvw, hwv⟩
    exact (htogether v hv w).2 ⟨hvw.to_reflTransGen, hwv.to_reflTransGen⟩

theorem isCycle_of_transGen (h : AreComponents graph components) (hcomponent : component ∈ components)
    (hv : v ∈ component) (hloop : TransGen graph.Step v v) : isCycle graph component = true := by
  obtain ⟨u, hvu, huv⟩ := TransGen.head'_iff.1 hloop
  have hu : u ∈ component :=
    ((h.together component hcomponent).2 v hv u).2 ⟨.single hvu, huv⟩
  exact isCycle_of_mem hv hu hvu

end Components

/-! ## Names of components -/

/-- The names of some places in ascending order. -/
def namesAt (declarations : List Declaration) (places : List Nat) : List Text :=
  (places.filterMap (nameAt? declarations)).mergeSort fun a b => decide (a ≤ b)

theorem mem_namesAt_iff {places : List Nat} {name : Text} :
    name ∈ namesAt declarations places ↔
      ∃ place ∈ places, nameAt? declarations place = some name := by
  rw [namesAt, List.mem_mergeSort, List.mem_filterMap]

/-- Sorting by texts, all of them different, puts these in ascending order. -/
theorem ascending_mergeSort {α : Type} (text : α → Text) {items : List α}
    (h : items.Pairwise fun a b => text a ≠ text b) :
    (items.mergeSort fun a b => decide (text a ≤ text b)).Pairwise fun a b => text a < text b := by
  have hle : (items.mergeSort fun a b => decide (text a ≤ text b)).Pairwise
      fun a b => decide (text a ≤ text b) = true := by
    apply List.pairwise_mergeSort
    · intro a b c hab hbc
      simp only [decide_eq_true_eq] at hab hbc ⊢
      exact hab.trans hbc
    · intro a b
      simp only [Bool.or_eq_true, decide_eq_true_eq]
      exact le_total _ _
  have hne := ((List.mergeSort_perm items fun a b => decide (text a ≤ text b)).pairwise_iff
    fun hne heq => hne heq.symm).2 h
  exact hle.imp₂ (fun a b hle hne => lt_of_le_of_ne (of_decide_eq_true hle) hne) hne

/-- The names of different places ascend. -/
theorem NamedApart.ascending_namesAt (h : NamedApart declarations) {places : List Nat}
    (hnodup : places.Nodup) : (namesAt declarations places).Pairwise (· < ·) := by
  refine ascending_mergeSort id (hnodup.filterMap ?_)
  intro v w name hv hw
  exact h.place_unique hv hw

namespace Arrangement

variable (a : Arrangement declarations sorted)

include a

/-- The nodes of the components are places of declarations. -/
theorem exists_nameAt? (h : NamedApart declarations) {component : List Nat}
    (hcomponent : component ∈ a.components) {place : Nat} (hplace : place ∈ component) :
    ∃ name, nameAt? declarations place = some name := by
  apply h.exists_nameAt?
  rw [← length_referenceGraph]
  exact (a.areComponents.covers place).1 (List.mem_flatten.2 ⟨component, hcomponent, hplace⟩)

/-- The names of a component that is a cycle are a group. -/
theorem isGroup_namesAt (h : NamedApart declarations) {component : List Nat}
    (hcomponent : component ∈ a.components)
    (hcycle : isCycle (referenceGraph declarations) component = true) :
    IsGroup declarations (namesAt declarations component) where
  nonempty := by
    obtain ⟨place, hplace⟩ :=
      List.exists_mem_of_ne_nil _ (a.areComponents.together component hcomponent).1
    obtain ⟨name, hname⟩ := a.exists_nameAt? h hcomponent hplace
    exact List.ne_nil_of_mem (mem_namesAt_iff.2 ⟨place, hplace, hname⟩)
  ascending := h.ascending_namesAt ((List.nodup_flatten.1 a.areComponents.nodup).1 _ hcomponent)
  mem_iff := by
    intro own hown name
    obtain ⟨v, hv, hvname⟩ := mem_namesAt_iff.1 hown
    have hmem := mem_iff_of_isCycle a.areComponents hcomponent hcycle hv
    constructor
    · intro hname
      obtain ⟨w, hw, hwname⟩ := mem_namesAt_iff.1 hname
      rw [← h.transGen_iff hvname hwname, ← h.transGen_iff hwname hvname]
      exact (hmem w).1 hw
    · rintro ⟨hto, hback⟩
      obtain ⟨b, -, -, d, hd, hdname⟩ := TransGen.tail'_iff.1 hto
      obtain ⟨w, hwname⟩ := exists_place_of_mem hd hdname
      refine mem_namesAt_iff.2 ⟨w, (hmem w).2 ⟨?_, ?_⟩, hwname⟩
      · exact (h.transGen_iff hvname hwname).2 hto
      · exact (h.transGen_iff hwname hvname).2 hback

/-- **Cycles.**  The cycles of a sorted list are the groups. -/
theorem mem_cycles_iff (h : NamedApart declarations) {names : List Text} :
    names ∈ sorted.cycles ↔ IsGroup declarations names := by
  rw [a.cycles_eq, mem_cyclesOf_iff]
  constructor
  · rintro ⟨component, hcomponent, hcycle, rfl⟩
    exact a.isGroup_namesAt h hcomponent hcycle
  · intro hgroup
    obtain ⟨own, hown⟩ := List.exists_mem_of_ne_nil _ hgroup.nonempty
    obtain ⟨hloop, -⟩ := (hgroup.mem_iff own hown own).1 hown
    obtain ⟨-, -, -, d, hd, hdname⟩ := TransGen.tail'_iff.1 hloop
    obtain ⟨v, hv⟩ := exists_place_of_mem hd hdname
    have hlt : v < List.length (referenceGraph declarations) := by
      rw [length_referenceGraph]
      exact lt_length_of_nameAt? hv
    obtain ⟨component, hcomponent, hvmem⟩ := List.mem_flatten.1 ((a.areComponents.covers v).2 hlt)
    have hcycle := isCycle_of_transGen a.areComponents hcomponent hvmem
      ((h.transGen_iff hv hv).2 hloop)
    refine ⟨component, hcomponent, hcycle, ?_⟩
    exact (a.isGroup_namesAt h hcomponent hcycle).eq_of_mem hgroup
      (mem_namesAt_iff.2 ⟨v, hvmem, hv⟩) hown

/-- **Order of cycles.**  The first names of the cycles ascend. -/
theorem pairwise_cycles (h : NamedApart declarations) :
    sorted.cycles.Pairwise fun first second => first.headD "" < second.headD "" := by
  have hapart := (List.nodup_flatten.1 a.areComponents.nodup).2
  rw [a.cycles_eq]
  refine ascending_mergeSort (fun names : List Text => names.headD "") (List.pairwise_map.2 ?_)
  refine (hapart.filter _).imp_of_mem ?_
  intro first second hfirst hsecond hdisjoint heq
  rw [List.mem_filter] at hfirst hsecond
  -- Equal names would be at one place, which is in one component only.
  have hgroup := a.isGroup_namesAt h hfirst.1 hfirst.2
  have hgroup' := a.isGroup_namesAt h hsecond.1 hsecond.2
  obtain ⟨v, hv, hvname⟩ := mem_namesAt_iff.1 hgroup.headD_mem
  obtain ⟨w, hw, hwname⟩ := mem_namesAt_iff.1 hgroup'.headD_mem
  have hsame : v = w := h.place_unique hvname (hwname.trans (congrArg some heq.symm))
  exact hdisjoint hv (hsame ▸ hw)

end Arrangement

theorem nodup_of_pairwise_headD {cycles : List (List Text)}
    (h : cycles.Pairwise fun first second => first.headD "" < second.headD "") : cycles.Nodup :=
  h.imp fun hlt heq => hlt.ne (congrArg (·.headD "") heq)

/-- **Order of declarations.**  Declarations in another order have the same cycles. -/
theorem cycles_eq_of_perm {other : List Declaration} {sorted' : Sorted}
    (h : NamedApart declarations) (hperm : declarations.Perm other)
    (hsort : sort declarations = .ok sorted) (hsort' : sort other = .ok sorted') :
    sorted.cycles = sorted'.cycles := by
  have h' : NamedApart other := h.of_perm hperm
  obtain ⟨a⟩ := exists_arrangement_of_sort h hsort
  obtain ⟨a'⟩ := exists_arrangement_of_sort h' hsort'
  have hordered := a.pairwise_cycles h
  have hordered' := a'.pairwise_cycles h'
  have hmem : ∀ names, names ∈ sorted.cycles ↔ names ∈ sorted'.cycles := by
    intro names
    rw [a.mem_cycles_iff h, a'.mem_cycles_iff h', isGroup_iff_of_perm hperm]
  refine List.Perm.eq_of_pairwise (fun first second _ _ hlt hlt' => ?_) hordered hordered' ?_
  · exact absurd hlt' (lt_asymm hlt)
  · exact (List.perm_ext_iff_of_nodup (nodup_of_pairwise_headD hordered)
      (nodup_of_pairwise_headD hordered')).2 hmem

/-! ## Components -/

/-- A name is that of one of the declarations. -/
def IsDeclared (declarations : List Declaration) (name : Text) : Prop :=
  ∃ d ∈ declarations, d.name = .text name

/-- Two names lead to each other along references, or are the same. -/
def Linked (declarations : List Declaration) (a b : Text) : Prop :=
  ReflTransGen (Refers declarations) a b ∧ ReflTransGen (Refers declarations) b a

/-- Some names in ascending order that are a strongly connected component of the references. -/
structure IsComponent (declarations : List Declaration) (names : List Text) : Prop where
  /-- There is a name. -/
  nonempty : names ≠ []
  /-- The names ascend. -/
  ascending : names.Pairwise (· < ·)
  /-- With a name the declared names that it is linked with are in the component, and no others. -/
  mem_iff : ∀ a ∈ names, ∀ b, b ∈ names ↔ IsDeclared declarations b ∧ Linked declarations a b

/-- There are two names at least, or one whose declaration refers to itself. -/
def IsRecursive (declarations : List Declaration) (names : List Text) : Prop :=
  2 ≤ names.length ∨ ∃ name, names = [name] ∧ Refers declarations name name

theorem isDeclared_of_transGen {a b : Text} (h : TransGen (Refers declarations) a b) :
    IsDeclared declarations b := by
  obtain ⟨c, -, -, hdeclared⟩ := TransGen.tail'_iff.1 h
  exact hdeclared

theorem transGen_of_linked {a b : Text} (loop : TransGen (Refers declarations) a a)
    (h : Linked declarations a b) :
    TransGen (Refers declarations) a b ∧ TransGen (Refers declarations) b a :=
  ⟨loop.trans_left h.1, TransGen.trans_right h.2 loop⟩

/-- A group is a component. -/
theorem IsGroup.isComponent {names : List Text} (h : IsGroup declarations names) :
    IsComponent declarations names where
  nonempty := h.nonempty
  ascending := h.ascending
  mem_iff := by
    intro a ha b
    constructor
    · intro hb
      obtain ⟨hab, hba⟩ := (h.mem_iff a ha b).1 hb
      exact ⟨isDeclared_of_transGen hab, hab.to_reflTransGen, hba.to_reflTransGen⟩
    · rintro ⟨-, hlinked⟩
      exact (h.mem_iff a ha b).2 (transGen_of_linked ((h.mem_iff a ha a).1 ha).1 hlinked)

/-- A group of one name refers to itself. -/
theorem IsGroup.isRecursive {names : List Text} (h : IsGroup declarations names) :
    IsRecursive declarations names := by
  match names with
  | [] => exact absurd rfl h.nonempty
  | [name] =>
    have hname : name ∈ [name] := List.mem_singleton_self name
    obtain ⟨c, hstep, hback⟩ := TransGen.head'_iff.1 ((h.mem_iff name hname name).1 hname).1
    -- The first name on the way is in the group, so it is the only name there is.
    have hc : c ∈ [name] := (h.isComponent.mem_iff name hname c).2
      ⟨isDeclared_of_transGen (.single hstep), .single hstep, hback⟩
    obtain rfl := List.mem_singleton.1 hc
    exact Or.inr ⟨c, rfl, hstep⟩
  | _ :: _ :: _ => exact Or.inl (by simp)

/-- The names of a recursive component lead back to themselves. -/
theorem IsComponent.transGen_self {names : List Text} (h : IsComponent declarations names)
    (recursive : IsRecursive declarations names) {a : Text} (ha : a ∈ names) :
    TransGen (Refers declarations) a a := by
  rcases recursive with htwo | ⟨name, rfl, hself⟩
  · obtain ⟨b, hb, hne⟩ : ∃ b ∈ names, b ≠ a := by
      by_contra hnone
      push Not at hnone
      have hsame : names = List.replicate names.length a := List.eq_replicate_of_mem hnone
      have hascending := h.ascending
      rw [hsame, List.pairwise_replicate] at hascending
      exact hascending.elim (fun hle => by omega) (lt_irrefl a)
    obtain ⟨-, hab, hba⟩ := (h.mem_iff a ha b).1 hb
    exact ((reflTransGen_iff_eq_or_transGen.1 hab).resolve_left hne).trans_left hba
  · obtain rfl := List.mem_singleton.1 ha
    exact .single hself

/-- The groups are the recursive components. -/
theorem isGroup_iff {names : List Text} :
    IsGroup declarations names ↔ IsComponent declarations names ∧ IsRecursive declarations names := by
  constructor
  · exact fun h => ⟨h.isComponent, h.isRecursive⟩
  · rintro ⟨h, recursive⟩
    refine ⟨h.nonempty, h.ascending, fun a ha b => ?_⟩
    rw [h.mem_iff a ha b]
    constructor
    · rintro ⟨-, hlinked⟩
      exact transGen_of_linked (h.transGen_self recursive ha) hlinked
    · rintro ⟨hab, hba⟩
      exact ⟨isDeclared_of_transGen hab, hab.to_reflTransGen, hba.to_reflTransGen⟩

/-- **Reported cycles.**  Complete declarations of different names are sorted, and the cycles that come
with them are the strongly connected components of their references that have two names at least or
one that refers to itself.  Each is listed once, its names in ascending order, and the cycles are in
the order of their first names. -/
theorem exists_sorted_cycles (h : NamedApart declarations) (complete : Complete declarations) :
    ∃ sorted, sort declarations = .ok sorted ∧
      (∀ names, names ∈ sorted.cycles ↔
        IsComponent declarations names ∧ IsRecursive declarations names) ∧
      sorted.cycles.Nodup ∧
      sorted.cycles.Pairwise fun first second => first.headD "" < second.headD "" := by
  obtain ⟨sorted, hsort, ⟨a⟩⟩ := exists_arrangement h complete
  have hordered := a.pairwise_cycles h
  refine ⟨sorted, hsort, fun names => ?_, nodup_of_pairwise_headD hordered, hordered⟩
  rw [a.mem_cycles_iff h, isGroup_iff]

/-- The recursive components of directories and persons are the two cycles of their sorted list. -/
theorem Directory.exists_sorted_cycles_given : NamedApart given ∧ Complete given ∧
    ∀ names, names ∈ ([["account", "person"], ["directory", "entry"]] : List (List Text)) ↔
      IsComponent given names ∧ IsRecursive given names := by
  obtain ⟨sorted, hsort, hcycles, -⟩ := exists_sorted_cycles namedApart_given complete_given
  obtain rfl := Except.ok.inj (sort_given.symm.trans hsort)
  exact ⟨namedApart_given, complete_given, hcycles⟩

end SchemaCodecs.Order
