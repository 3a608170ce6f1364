/-
# Sorting declarations

What the sorted list of declarations promises to the text generated from it.  The declarations are
those given, each once, and a declaration refers to itself or to a later one only within one of the
cycles that are reported with the list.

* `exists_arrangement` : sorting succeeds, and what it gives;
* `sort_total` : nothing is lost, and nothing fails;
* `exists_cycle_of_forward_mention` : declarations come before their uses, except in cycles.
-/
import SchemaCodecs.Proofs.Order.References
import SchemaCodecs.Proofs.Order.Release
import SchemaCodecs.Traced
import Mathlib

namespace SchemaCodecs.Order

variable {declarations : List Declaration} {sorted : Sorted}

/-! ## Items at places -/

/-- The items at some places of a list. -/
theorem mapM_getElem?_eq_some {α : Type} {items : List α} {places : List Nat}
    (h : ∀ place ∈ places, place < items.length) :
    places.mapM (items[·]?) = some (places.filterMap (items[·]?)) := by
  induction places with
  | nil => rfl
  | cons place rest ih =>
    have hplace := List.getElem?_eq_getElem (h place List.mem_cons_self)
    rw [List.mapM_cons, ih fun other hother => h other (List.mem_cons_of_mem _ hother),
      List.filterMap_cons, hplace]
    rfl

/-- The items at all places in order are the list. -/
theorem filterMap_range_getElem? {α : Type} (items : List α) :
    (List.range items.length).filterMap (items[·]?) = items := by
  induction items with
  | nil => rfl
  | cons a rest ih =>
    rw [List.length_cons, List.range_succ_eq_map, List.filterMap_cons, List.filterMap_map]
    show a :: (List.range rest.length).filterMap (rest[·]?) = a :: rest
    rw [ih]

/-- The items at different places, of which each is in the list, are found in their order. -/
theorem getElem?_filterMap_getElem? {α : Type} {items : List α} {places : List Nat}
    (h : ∀ place ∈ places, place < items.length) (i : Nat) {a : α}
    (ha : (places.filterMap (items[·]?))[i]? = some a) :
    ∃ place, places[i]? = some place ∧ items[place]? = some a := by
  induction places generalizing i with
  | nil => cases ha
  | cons first rest ih =>
    have hfirst := List.getElem?_eq_getElem (h first List.mem_cons_self)
    rw [List.filterMap_cons, hfirst] at ha
    cases i with
    | zero => exact ⟨first, rfl, hfirst.trans ha⟩
    | succ i => exact ih (fun other hother => h other (List.mem_cons_of_mem _ hother)) i ha

/-! ## The sorted list -/

/-- What sorting gives: the components that were found, and the order in which places were
released. -/
structure Arrangement (declarations : List Declaration) (sorted : Sorted) where
  /-- The components. -/
  components : List (List Nat)
  /-- They are those of the references. -/
  areComponents : AreComponents (referenceGraph declarations) components
  /-- The places in order. -/
  places : List Nat
  /-- Each place occurs once. -/
  perm : places.Perm (List.range declarations.length)
  /-- A place refers to a later one only within its own component. -/
  ordered : places.Pairwise fun earlier later =>
    later ∈ (referenceGraph declarations).next earlier →
      (referenceGraph declarations).Together earlier later
  /-- The sorted list has the declarations at the places. -/
  declarations_eq : sorted.declarations = places.filterMap (declarations[·]?)
  /-- The cycles are those of the components. -/
  cycles_eq : sorted.cycles
    = cyclesOf (referenceGraph declarations) components (nameAt? declarations)

/-- The sorted list, given the components and the order of release. -/
theorem sort_eq_of_releaseAll (h : NamedApart declarations) (complete : Complete declarations)
    {found : List (List Nat)} {last : Progress}
    (hfound : components (referenceGraph declarations) = some found)
    (hlast : releaseAll (referenceGraph declarations) (componentOf found) (nameAt? declarations)
      (Progress.start (referenceGraph declarations)) = .ok last)
    (hplaces : ∀ place ∈ last.released, place < declarations.length) :
    sort declarations = .ok {
      declarations := last.released.reverse.filterMap (declarations[·]?)
      cycles := cyclesOf (referenceGraph declarations) found (nameAt? declarations)
      broken := last.broken.reverse.filterMap (nameAt? declarations) } := by
  have hdistinct : allDistinctBy Scalar.same (declarations.map (·.name)) = true := by
    refine allDistinctBy_of_nodup ?_ h.apart
    intro key hkey
    obtain ⟨d, hd, rfl⟩ := List.mem_map.1 hkey
    exact h.text d hd
  have hordered : last.released.reverse.mapM (declarations[·]?)
      = some (last.released.reverse.filterMap (declarations[·]?)) :=
    mapM_getElem?_eq_some fun place hplace => hplaces place (List.mem_reverse.1 hplace)
  rw [referenceGraph] at hfound hlast
  rw [sort, mapM_references?_of_complete complete]
  simp only [bind, Except.bind, hdistinct, if_true, arrange, hfound, present, hlast, hordered]
  rfl

/-- The sorted list, given the graph of references, its components and the places at which declarations
were released and cycles broken. -/
theorem sort_eq_of_released (h : NamedApart declarations) (complete : Complete declarations)
    {graph : Graph} (hgraph : referenceGraph declarations = graph) {found : List (List Nat)}
    (hfound : components graph = some found) {released broken : List Nat}
    (hreleased : (releaseAll graph (componentOf found) (nameAt? declarations)
      (Progress.start graph)).toOption.map (fun last => (last.released, last.broken))
        = some (released, broken))
    (hplaces : ∀ place ∈ released, place < declarations.length) :
    sort declarations = .ok {
      declarations := released.reverse.filterMap (declarations[·]?)
      cycles := cyclesOf graph found (nameAt? declarations)
      broken := broken.reverse.filterMap (nameAt? declarations) } := by
  subst hgraph
  obtain ⟨last, hlast, heq⟩ := Option.map_eq_some_iff.1 hreleased
  obtain ⟨rfl, rfl⟩ := Prod.mk.inj heq
  exact sort_eq_of_releaseAll h complete hfound (eq_ok_of_toOption hlast) hplaces

/-- **Sorting.**  Complete declarations of different names are arranged. -/
theorem exists_arrangement (h : NamedApart declarations) (complete : Complete declarations) :
    ∃ sorted, sort declarations = .ok sorted ∧ Nonempty (Arrangement declarations sorted) := by
  have hclosed := closed_referenceGraph declarations
  obtain ⟨found, hfound, hcomponents⟩ := exists_components hclosed
  obtain ⟨last, hlast, hreleasing, hperm⟩ :=
    releaseAll_spec hclosed (nodup_next_referenceGraph declarations) hcomponents h.named
      (Progress.start _) (releasing_start _)
  rw [length_referenceGraph] at hperm
  have hplaces : ∀ place ∈ last.released, place < declarations.length :=
    fun place hplace => List.mem_range.1 (hperm.subset hplace)
  refine ⟨_, sort_eq_of_releaseAll h complete hfound hlast hplaces, ⟨?_⟩⟩
  exact {
    components := found
    areComponents := hcomponents
    places := last.released.reverse
    perm := (List.reverse_perm _).trans hperm
    ordered := List.pairwise_reverse.2 hreleasing.ordered
    declarations_eq := rfl
    cycles_eq := rfl }

/-- What is sorted is complete. -/
theorem complete_of_sort (hsort : sort declarations = .ok sorted) : Complete declarations := by
  cases hreferences : declarations.mapM Declaration.references? with
  | error fault =>
    rw [sort, hreferences] at hsort
    cases hsort
  | ok references => exact complete_of_mapM_references? hreferences

/-- A sorted list is an arrangement. -/
theorem exists_arrangement_of_sort (h : NamedApart declarations)
    (hsort : sort declarations = .ok sorted) : Nonempty (Arrangement declarations sorted) := by
  obtain ⟨sorted', hsort', harrangement⟩ := exists_arrangement h (complete_of_sort hsort)
  obtain rfl := Except.ok.inj (hsort.symm.trans hsort')
  exact harrangement

theorem Arrangement.lt_length (a : Arrangement declarations sorted) :
    ∀ place ∈ a.places, place < declarations.length :=
  fun _ hplace => List.mem_range.1 (a.perm.subset hplace)

/-- An arrangement has every declaration once. -/
theorem Arrangement.perm_declarations (a : Arrangement declarations sorted) :
    sorted.declarations.Perm declarations := by
  rw [a.declarations_eq]
  refine (a.perm.filterMap _).trans ?_
  rw [filterMap_range_getElem?]

/-! ## Cycles -/

/-- Two places of one component are in a cycle if the first refers to the second. -/
theorem isCycle_of_mem {graph : Graph} {component : List Nat} {v w : Nat} (hv : v ∈ component)
    (hw : w ∈ component) (hnext : w ∈ graph.next v) : isCycle graph component = true := by
  match component with
  | [] => cases hv
  | [node] =>
    obtain rfl := List.mem_singleton.1 hv
    obtain rfl := List.mem_singleton.1 hw
    exact List.contains_iff_mem.2 hnext
  | _ :: _ :: _ => rfl

/-- The cycles are the names of the components that are cycles. -/
theorem mem_cyclesOf_iff {graph : Graph} {components : List (List Nat)}
    {name? : Nat → Option Text} {cycle : List Text} :
    cycle ∈ cyclesOf graph components name? ↔ ∃ component ∈ components,
      isCycle graph component = true ∧
        (component.filterMap name?).mergeSort (fun a b => decide (a ≤ b)) = cycle := by
  rw [cyclesOf, List.mem_mergeSort, List.mem_map]
  constructor
  · rintro ⟨component, hcomponent, rfl⟩
    obtain ⟨hmem, hcycle⟩ := List.mem_filter.1 hcomponent
    exact ⟨component, hmem, hcycle, rfl⟩
  · rintro ⟨component, hmem, hcycle, rfl⟩
    exact ⟨component, List.mem_filter.2 ⟨hmem, hcycle⟩, rfl⟩

/-- A reference between two places of one component is in one of the cycles. -/
theorem Arrangement.exists_cycle (a : Arrangement declarations sorted) {v w : Nat}
    (hv : v < declarations.length) (hnext : w ∈ (referenceGraph declarations).next v)
    (htogether : (referenceGraph declarations).Together v w) {own name : Text}
    (hown : nameAt? declarations v = some own) (hname : nameAt? declarations w = some name) :
    ∃ cycle ∈ sorted.cycles, own ∈ cycle ∧ name ∈ cycle := by
  rw [← length_referenceGraph] at hv
  obtain ⟨component, hcomponent, hvmem⟩ :=
    List.mem_flatten.1 ((a.areComponents.covers v).2 hv)
  have hwmem : w ∈ component :=
    (((a.areComponents.together component hcomponent).2 v hvmem) w).2 htogether
  refine ⟨(component.filterMap (nameAt? declarations)).mergeSort fun x y => decide (x ≤ y),
    ?_, ?_, ?_⟩
  · rw [a.cycles_eq, mem_cyclesOf_iff]
    exact ⟨component, hcomponent, isCycle_of_mem hvmem hwmem hnext, rfl⟩
  · rw [List.mem_mergeSort, List.mem_filterMap]
    exact ⟨v, hvmem, hown⟩
  · rw [List.mem_mergeSort, List.mem_filterMap]
    exact ⟨w, hwmem, hname⟩

/-! ## What sorting promises -/

/-- **Nothing is lost, and nothing fails.**  Complete declarations of different names are sorted, and
the sorted list has each of them once.  The search for components never takes from an empty stack, and
as long as declarations remain there is one at which a cycle can be broken. -/
theorem sort_total (h : NamedApart declarations) (complete : Complete declarations) :
    (∃ sorted, sort declarations = .ok sorted ∧ sorted.declarations.Perm declarations) ∧
      ∃ found, components (referenceGraph declarations) = some found ∧
        ∀ released : List Nat, (∃ place < declarations.length, place ∉ released) →
          ∃ place, breakingNode? (referenceGraph declarations) (componentOf found)
            (nameAt? declarations) released = some place := by
  obtain ⟨sorted, hsort, ⟨arrangement⟩⟩ := exists_arrangement h complete
  have hclosed := closed_referenceGraph declarations
  obtain ⟨found, hfound, hcomponents⟩ := exists_components hclosed
  refine ⟨⟨sorted, hsort, arrangement.perm_declarations⟩, found, hfound, fun released hleft => ?_⟩
  rw [← length_referenceGraph] at hleft
  exact exists_breakingNode hclosed hcomponents h.named hleft

/-- **Defined before use.**  In a sorted list a declaration mentions itself or a later one only if
both are in one of the reported cycles. -/
theorem exists_cycle_of_forward_mention (h : NamedApart declarations)
    (hsort : sort declarations = .ok sorted) {i j : Nat} {d e : Declaration}
    (hd : sorted.declarations[i]? = some d) (he : sorted.declarations[j]? = some e) (hij : i ≤ j)
    {name : Text} (hname : e.name = .text name) (hmention : d.type.Mentions name) :
    ∃ own, d.name = .text own ∧ ∃ cycle ∈ sorted.cycles, own ∈ cycle ∧ name ∈ cycle := by
  obtain ⟨a⟩ := exists_arrangement_of_sort h hsort
  rw [a.declarations_eq] at hd he
  obtain ⟨v, hv, hdv⟩ := getElem?_filterMap_getElem? a.lt_length i hd
  obtain ⟨w, hw, hew⟩ := getElem?_filterMap_getElem? a.lt_length j he
  have hnext : w ∈ (referenceGraph declarations).next v :=
    (mem_next_iff h hdv hew hname).2 hmention
  have htogether : (referenceGraph declarations).Together v w := by
    rcases Nat.lt_or_eq_of_le hij with hlt | rfl
    · obtain ⟨hi, rfl⟩ := List.getElem?_eq_some_iff.1 hv
      obtain ⟨hj, rfl⟩ := List.getElem?_eq_some_iff.1 hw
      exact List.pairwise_iff_getElem.1 a.ordered i j hi hj hlt hnext
    · obtain rfl := Option.some.inj (hv.symm.trans hw)
      exact Graph.Together.refl _ v
  -- The places are of one component, whose names are one of the cycles.
  obtain ⟨hlt, rfl⟩ := List.getElem?_eq_some_iff.1 hdv
  obtain ⟨own, hown⟩ := h.text _ (List.getElem_mem hlt)
  refine ⟨own, hown, a.exists_cycle hlt hnext htogether ?_ ?_⟩
  · rw [nameAt?, hdv, Option.bind_some, text?_eq_some_iff]
    exact hown
  · rw [nameAt?, hew, Option.bind_some, text?_eq_some_iff]
    exact hname

/-! ## Two cycles, one of which waits for the other -/

namespace Directory

/-- Directories and their entries refer to each other, and so do persons and their accounts, which
entries refer to.  Nothing is declared under the name of strangers. -/
def given : List Declaration :=
  [⟨.text "directory", .record [⟨.text "entries", .array (.identifier "entry"), false⟩,
      ⟨.text "title", .identifier "label", true⟩], .scalar (.bool true)⟩,
   ⟨.text "entry", .union [.identifier "directory", .identifier "person", .identifier "stranger"],
      .scalar (.bool true)⟩,
   ⟨.text "person", .record [⟨.text "account", .identifier "account", false⟩],
      .scalar (.bool true)⟩,
   ⟨.text "account", .intersection [.identifier "person", .bare], .scalar (.bool true)⟩,
   ⟨.text "label", .primitive "string", .scalar (.bool true)⟩]

/-- The declarations in order. -/
def arranged : Sorted where
  declarations :=
    [⟨.text "label", .primitive "string", .scalar (.bool true)⟩,
     ⟨.text "account", .intersection [.identifier "person", .bare], .scalar (.bool true)⟩,
     ⟨.text "person", .record [⟨.text "account", .identifier "account", false⟩],
        .scalar (.bool true)⟩,
     ⟨.text "directory", .record [⟨.text "entries", .array (.identifier "entry"), false⟩,
        ⟨.text "title", .identifier "label", true⟩], .scalar (.bool true)⟩,
     ⟨.text "entry",
        .union [.identifier "directory", .identifier "person", .identifier "stranger"],
        .scalar (.bool true)⟩]
  cycles := [["account", "person"], ["directory", "entry"]]
  broken := ["account", "directory"]

theorem namedApart_given : NamedApart given where
  text := by simp [given]
  apart := by decide

theorem complete_given : Complete given := by
  unfold Complete given
  decide

/-- The references between the places. -/
def graph : Graph := [[1, 4], [0, 2], [3], [2], []]

/-- The declarations are sorted so. -/
theorem sort_given : sort given = .ok arranged := by
  have hgraph : referenceGraph given = graph := by decide +kernel
  have hfound : components graph = some [[1, 0], [4], [3, 2]] := by cbv
  have hreleased : (releaseAll graph (componentOf [[1, 0], [4], [3, 2]]) (nameAt? given)
      (Progress.start graph)).toOption.map (fun last => (last.released, last.broken))
        = some ([1, 0, 2, 3, 4], [0, 3]) := by cbv
  have hcycles : cyclesOf graph [[1, 0], [4], [3, 2]] (nameAt? given)
      = ([["account", "person"], ["directory", "entry"]] : List (List Text)) := by
    have hcomponents : [[1, 0], [4], [3, 2]].filter (isCycle graph) = [[1, 0], [3, 2]] := by decide
    have hfirst : [1, 0].filterMap (nameAt? given) = (["entry", "directory"] : List Text) := rfl
    have hsecond : [3, 2].filterMap (nameAt? given) = (["account", "person"] : List Text) := rfl
    rw [cyclesOf, hcomponents, List.map_cons, List.map_singleton, hfirst, hsecond]
    have hentry : ¬ ("entry" : Text) ≤ "directory" := by decide
    have haccount : ("account" : Text) ≤ "person" := by decide
    have hheads : ¬ ("directory" : Text) ≤ "account" := by decide
    simp [List.mergeSort, List.MergeSort.Internal.splitInTwo, hentry, haccount, hheads]
  rw [sort_eq_of_released namedApart_given complete_given hgraph hfound hreleased (by decide),
    hcycles]
  rfl

/-- Nothing is lost, and nothing fails. -/
theorem sort_total_given : NamedApart given ∧ Complete given ∧
    (∃ sorted, sort given = .ok sorted ∧ sorted.declarations.Perm given) ∧
      ∃ found, components (referenceGraph given) = some found ∧
        ∀ released : List Nat, (∃ place < given.length, place ∉ released) →
          ∃ place, breakingNode? (referenceGraph given) (componentOf found) (nameAt? given)
            released = some place :=
  ⟨namedApart_given, complete_given, sort_total namedApart_given complete_given⟩

/-- Directories mention their entries, which come after them, and both are in the second cycle. -/
theorem exists_cycle_of_directory : NamedApart given ∧ sort given = .ok arranged ∧
    ∃ own, Scalar.text "directory" = .text own ∧
      ∃ cycle ∈ arranged.cycles, own ∈ cycle ∧ ("entry" : Text) ∈ cycle := by
  have hmention : TypeExpr.Mentions "entry" (.record
      [⟨.text "entries", .array (.identifier "entry"), false⟩,
        ⟨.text "title", .identifier "label", true⟩]) :=
    .record List.mem_cons_self (.array .identifier)
  exact ⟨namedApart_given, sort_given, exists_cycle_of_forward_mention namedApart_given sort_given
    (i := 3) (j := 4) rfl rfl (by decide) rfl hmention⟩

end Directory

end SchemaCodecs.Order
