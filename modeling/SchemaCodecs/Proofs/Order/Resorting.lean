/-
# Sorting again

A sorted list is sorted into itself.  What is free, and what only waits for its own component, does not
depend on the order in which the declarations are given.  So when they are given in the sorted order,
the name that was emitted next is again the earliest of the free ones, or the one at which a cycle is
broken.

* `Greedy.again` : the greedy order is greedy for the declarations in this order;
* `brokenAmong` : cycles are broken at the names that still waited for others;
* `sort_sorted` : sorting again changes nothing.
-/
import SchemaCodecs.Proofs.Order.Greedy

namespace SchemaCodecs.Order

variable {declarations others : List Declaration} {emitted rest : List Text} {name : Text}

/-! ## Declarations in another order -/

section Permuted

variable (perm : declarations.Perm others)

include perm

theorem isDeclared_iff_of_perm : IsDeclared declarations name ↔ IsDeclared others name := by
  simp only [IsDeclared, perm.mem_iff]

theorem isLeft_iff_of_perm : IsLeft declarations emitted name ↔ IsLeft others emitted name := by
  rw [IsLeft, IsLeft, isDeclared_iff_of_perm perm]

theorem isFree_iff_of_perm : IsFree declarations emitted name ↔ IsFree others emitted name := by
  rw [IsFree, IsFree, refers_eq_of_perm perm]

theorem waitsForOwn_iff_of_perm :
    WaitsForOwn declarations emitted name ↔ WaitsForOwn others emitted name := by
  unfold WaitsForOwn Linked
  rw [refers_eq_of_perm perm]

end Permuted

/-! ## The greedy order again -/

/-- In a list of declarations with the given names in order, each name is found at its place. -/
theorem nameAt?_of_names {names : List Text} (h : others.map (·.name) = names.map Scalar.text)
    (place : Nat) : nameAt? others place = names[place]? := by
  have hname : nameAt? others place = ((others.map (·.name))[place]?).bind Scalar.text? := by
    rw [nameAt?, List.getElem?_map, Option.bind_map]
    rfl
  rw [hname, h, List.getElem?_map]
  cases names[place]? <;> rfl

/-- The name that is emitted next is so too if the declarations are given in the order in which they
are emitted: those before it have been emitted. -/
theorem Emits.again (perm : declarations.Perm others)
    (names : others.map (·.name) = (emitted.reverse ++ name :: rest).map Scalar.text)
    (h : Emits declarations emitted name) : Emits others emitted name := by
  cases h with
  | free _ left free _ =>
    have hplace : nameAt? others emitted.length = some name := by
      rw [nameAt?_of_names names, ← List.length_reverse, List.getElem?_append_right le_rfl,
        Nat.sub_self]
      rfl
    refine .free hplace left ((isFree_iff_of_perm perm).1 free) fun other earlier hother hleft _ => ?_
    by_contra hbefore
    have hlt : earlier < emitted.reverse.length := by
      rw [List.length_reverse]
      omega
    rw [nameAt?_of_names names, List.getElem?_append_left hlt] at hother
    exact hleft (List.mem_reverse.1 (List.mem_of_getElem? hother))
  | breaking left stuck waits lowest =>
    refine .breaking ((isLeft_iff_of_perm perm).1 left) (fun other hleft hfree => ?_)
      ((waitsForOwn_iff_of_perm perm).1 waits) fun other hleft hwaits => ?_
    · exact stuck other ((isLeft_iff_of_perm perm).2 hleft) ((isFree_iff_of_perm perm).2 hfree)
    · exact lowest other ((isLeft_iff_of_perm perm).2 hleft)
        ((waitsForOwn_iff_of_perm perm).2 hwaits)

/-- **The greedy order again.**  If declarations are given in the order in which the rule emits them,
the rule emits them in this order. -/
theorem Greedy.again (perm : declarations.Perm others)
    (names : others.map (·.name) = (emitted.reverse ++ rest).map Scalar.text)
    (h : Greedy declarations emitted rest) : Greedy others emitted rest := by
  induction h with
  | done all => exact .done fun name hleft => all name ((isLeft_iff_of_perm perm).2 hleft)
  | emit emits _ ih =>
    refine .emit (emits.again perm names) (ih ?_)
    rw [names, List.reverse_cons, List.append_assoc]
    rfl

/-! ## Where cycles are broken -/

/-- Those of some released nodes, the last one first, that waited for others when they were
released. -/
def brokenAmong (graph : Graph) : List Nat → List Nat
  | [] => []
  | node :: earlier =>
    if (waiting graph earlier node).isEmpty then brokenAmong graph earlier
    else node :: brokenAmong graph earlier

/-- Releasing a declaration breaks no cycle. -/
theorem broken_of_release {graph : Graph} {p next : Progress} {node : Nat}
    (hnext : p.release graph node = some next) : next.broken = p.broken := by
  refine kept_of_release (P := fun q => q.broken = p.broken) (fun hq hcount => ?_) rfl hnext
  obtain ⟨count, -, rfl⟩ := Option.map_eq_some_iff.1 hcount
  dsimp only
  split <;> exact hq

/-- Each step notes just the released nodes that waited for others. -/
theorem kept_broken {graph : Graph} {components : List (List Nat)} {name? : Nat → Option Text}
    (closed : graph.Closed) (hcomponents : AreComponents graph components) :
    Kept graph (componentOf components) name? fun p => p.broken = brokenAmong graph p.released where
  drop := fun _ hbroken _ _ => hbroken
  ready := by
    intro p node rest next h hbroken hready _ hnext
    have hmem : node ∈ p.ready := by
      rw [hready]
      exact List.mem_cons_self
    obtain ⟨-, hnil⟩ := h.ready node hmem
    rw [broken_of_release hnext, released_of_release hnext, brokenAmong, hnil]
    exact hbroken
  breaking := by
    intro p node next h hbroken hready hfound hnext
    obtain ⟨hlt, hnew, -⟩ := waitsWithin_of_breakingNode? closed hcomponents hfound
    -- A node that waits for nothing would have been found to be ready.
    have hwaits : waiting graph p.released node ≠ [] := by
      intro hnil
      have hmem := (h.found node hlt hnil).resolve_left hnew
      rw [hready] at hmem
      cases hmem
    rw [broken_of_release hnext, released_of_release hnext, brokenAmong,
      if_neg (mt List.isEmpty_iff.1 hwaits)]
    exact congrArg (node :: ·) hbroken

/-- Cycles are broken at the same names if the same names are released in the same order. -/
theorem NamedApart.filterMap_brokenAmong (h : NamedApart declarations)
    (perm : declarations.Perm others) {places places' : List Nat}
    (hplaces : ∀ place ∈ places, place < declarations.length)
    (hplaces' : ∀ place ∈ places', place < others.length)
    (heq : places.filterMap (nameAt? declarations) = places'.filterMap (nameAt? others)) :
    (brokenAmong (referenceGraph declarations) places).filterMap (nameAt? declarations)
      = (brokenAmong (referenceGraph others) places').filterMap (nameAt? others) := by
  have h' : NamedApart others := h.of_perm perm
  induction places generalizing places' with
  | nil =>
    cases places' with
    | nil => rfl
    | cons second earlier' =>
      obtain ⟨b, hb⟩ := h'.exists_nameAt? (hplaces' second List.mem_cons_self)
      rw [List.filterMap_cons, hb] at heq
      cases heq
  | cons first earlier ih =>
    obtain ⟨hfirst, hplaces⟩ := List.forall_mem_cons.1 hplaces
    obtain ⟨a, ha⟩ := h.exists_nameAt? hfirst
    rw [List.filterMap_cons, ha] at heq
    cases places' with
    | nil => cases heq
    | cons second earlier' =>
      obtain ⟨hsecond, hplaces'⟩ := List.forall_mem_cons.1 hplaces'
      obtain ⟨b, hb⟩ := h'.exists_nameAt? hsecond
      rw [List.filterMap_cons, hb] at heq
      obtain ⟨rfl, hearlier⟩ := List.cons.inj heq
      have hwaits : (waiting (referenceGraph declarations) earlier first).isEmpty
          = (waiting (referenceGraph others) earlier' second).isEmpty := by
        rw [Bool.eq_iff_iff, List.isEmpty_iff, List.isEmpty_iff, h.waiting_eq_nil_iff ha,
          h'.waiting_eq_nil_iff hb, ← hearlier, isFree_iff_of_perm perm]
      have hbroken := ih hplaces hplaces' hearlier
      rw [brokenAmong, brokenAmong, hwaits]
      split
      · exact hbroken
      · rw [List.filterMap_cons, List.filterMap_cons, ha, hb, hbroken]

/-! ## Sorting again -/

/-- The places at which sorted declarations were released, the last one first. -/
theorem exists_released_of_sort {sorted : Sorted} (h : NamedApart declarations)
    (hsort : sort declarations = .ok sorted) : ∃ released : List Nat,
      (∀ place ∈ released, place < declarations.length) ∧
      sorted.declarations = released.reverse.filterMap (declarations[·]?) ∧
      sorted.broken = (brokenAmong (referenceGraph declarations) released).reverse.filterMap
        (nameAt? declarations) ∧
      Greedy declarations [] (released.reverse.filterMap (nameAt? declarations)) := by
  have hclosed := closed_referenceGraph declarations
  obtain ⟨found, hfound, hcomponents⟩ := exists_components hclosed
  obtain ⟨last, hlast, hplaces, hgreedy⟩ := h.exists_greedy_release hcomponents (.refl _)
  obtain ⟨last', hlast', -, hbroken, -⟩ :=
    releaseAll_kept hclosed (nodup_next_referenceGraph declarations) hcomponents h.named
      (kept_broken hclosed hcomponents) _ (releasing_start _) rfl
  obtain rfl := Except.ok.inj (hlast.symm.trans hlast')
  have hbound : ∀ place ∈ last.released, place < declarations.length :=
    fun place hplace => hplaces place (List.mem_reverse.2 hplace)
  have hsorted := sort_eq_of_releaseAll h (complete_of_sort hsort) hfound hlast hbound
  obtain rfl := Except.ok.inj (hsort.symm.trans hsorted)
  exact ⟨last.released, hbound, rfl, by rw [hbroken], hgreedy⟩

/-- Declarations of different names are determined by their names in order. -/
theorem NamedApart.eq_of_names (h : NamedApart declarations) (sub : others ⊆ declarations)
    (hnames : others.map (·.name) = declarations.map (·.name)) : others = declarations := by
  refine List.ext_getElem? fun place => ?_
  have hplace := congrArg (·[place]?) hnames
  simp only [List.getElem?_map] at hplace
  cases hother : others[place]? with
  | none =>
    rw [hother, Option.map_none, eq_comm, Option.map_eq_none_iff] at hplace
    exact hplace.symm
  | some e =>
    rw [hother, Option.map_some, eq_comm, Option.map_eq_some_iff] at hplace
    obtain ⟨d, hd, hname⟩ := hplace
    have hmem : e ∈ declarations := sub (List.mem_of_getElem? hother)
    rw [hd, List.inj_on_of_nodup_map h.apart hmem (List.mem_of_getElem? hd) hname.symm]

/-- **Sorting again.**  Sorted declarations are sorted into the same list, with the same cycles, which
are broken at the same names. -/
theorem sort_sorted {sorted : Sorted} (h : NamedApart declarations)
    (hsort : sort declarations = .ok sorted) : sort sorted.declarations = .ok sorted := by
  obtain ⟨a⟩ := exists_arrangement_of_sort h hsort
  have perm : declarations.Perm sorted.declarations := a.perm_declarations.symm
  have h' : NamedApart sorted.declarations := h.of_perm perm
  have complete' : Complete sorted.declarations :=
    fun d hd => complete_of_sort hsort d (perm.mem_iff.2 hd)
  obtain ⟨again, hagain, ⟨a'⟩⟩ := exists_arrangement h' complete'
  obtain ⟨released, hplaces, hdeclarations, hbroken, hgreedy⟩ := exists_released_of_sort h hsort
  obtain ⟨released', hplaces', hdeclarations', hbroken', hgreedy'⟩ :=
    exists_released_of_sort h' hagain
  have hnames : sorted.declarations.map (·.name)
      = (released.reverse.filterMap (nameAt? declarations)).map Scalar.text := by
    rw [hdeclarations]
    exact h.map_name_filterMap fun place hplace => hplaces place (List.mem_reverse.1 hplace)
  have hnames' : again.declarations.map (·.name)
      = (released'.reverse.filterMap (nameAt? sorted.declarations)).map Scalar.text := by
    rw [hdeclarations']
    exact h'.map_name_filterMap fun place hplace => hplaces' place (List.mem_reverse.1 hplace)
  -- There is only one greedy order, and the sorted one is it.
  have horder : released.reverse.filterMap (nameAt? declarations)
      = released'.reverse.filterMap (nameAt? sorted.declarations) :=
    (hgreedy.again perm hnames).unique hgreedy'
  have hsame : again.declarations = sorted.declarations :=
    h'.eq_of_names a'.perm_declarations.subset (by rw [hnames', ← horder, hnames])
  have hcycles : again.cycles = sorted.cycles := (cycles_eq_of_perm h perm hsort hagain).symm
  have hsites : again.broken = sorted.broken := by
    rw [hbroken, hbroken', List.filterMap_reverse, List.filterMap_reverse,
      h.filterMap_brokenAmong perm hplaces hplaces' ?_]
    rw [List.filterMap_reverse, List.filterMap_reverse] at horder
    exact List.reverse_injective horder
  calc sort sorted.declarations
      = .ok ⟨again.declarations, again.cycles, again.broken⟩ := hagain
    _ = .ok ⟨sorted.declarations, sorted.cycles, sorted.broken⟩ := by rw [hsame, hcycles, hsites]

/-- Sorting brings directories and persons into another order, and sorting again leaves them there. -/
theorem Directory.sort_sorted_arranged : NamedApart given ∧ sort given = .ok arranged ∧
    arranged.declarations.map (·.name) ≠ given.map (·.name) ∧
    sort arranged.declarations = .ok arranged :=
  ⟨namedApart_given, sort_given, by decide, sort_sorted namedApart_given sort_given⟩

end SchemaCodecs.Order
