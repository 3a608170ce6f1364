/-
# Releasing declarations

The counter of a declaration is the number of its dependencies that have not been released, and the
declarations found to be ready are those that wait for nothing.  Each release keeps this, so that the
counters never fail, and since there is always a cycle to break all declarations are released.

* `Releasing` : what holds between two releases;
* `Releasing.release` : one release;
* `Kept`, `releaseAll_kept` : what the steps keep holds in the end;
* `releaseAll_spec` : all releases.
-/
import SchemaCodecs.Proofs.Order.Breaking

namespace SchemaCodecs.Order

variable {graph : Graph} {p : Progress} {node : Nat}

/-! ## Waiting -/

/-- The dependencies of a node that have not been released. -/
def waiting (graph : Graph) (released : List Nat) (node : Nat) : List Nat :=
  (graph.dependencies node).filter fun other => other ∉ released

theorem mem_waiting_iff {released : List Nat} {other : Nat} :
    other ∈ waiting graph released node
      ↔ other ∈ graph.next node ∧ other ≠ node ∧ other ∉ released := by
  rw [waiting, List.mem_filter, Graph.dependencies, List.mem_filter, bne_iff_ne,
    decide_eq_true_eq, and_assoc]

/-- A node that waits for nothing waits only for its own component. -/
theorem waitsWithin_of_waiting_eq_nil {released : List Nat}
    (h : waiting graph released node = []) : graph.WaitsWithin released node := by
  intro other hother
  by_cases heq : other = node
  · rw [heq]
    exact Or.inr (Graph.Together.refl graph node)
  · by_cases hreleased : other ∈ released
    · exact Or.inl hreleased
    · have hmem : other ∈ waiting graph released node :=
        mem_waiting_iff.2 ⟨hother, heq, hreleased⟩
      rw [h] at hmem
      cases hmem

/-- After a release nothing waits for the node that was released. -/
theorem waiting_cons (released : List Nat) (node other : Nat) :
    waiting graph (node :: released) other
      = (waiting graph released other).filter (· != node) := by
  rw [waiting, waiting, List.filter_filter]
  refine List.filter_congr fun v _ => ?_
  rw [Bool.eq_iff_iff]
  simp

theorem mem_dependents_iff {other : Nat} :
    other ∈ graph.dependents node
      ↔ other < graph.length ∧ node ∈ graph.next other ∧ node ≠ other := by
  rw [Graph.dependents, List.mem_filter, List.mem_range, List.contains_iff_mem,
    Graph.dependencies, List.mem_filter, bne_iff_ne]

/-- A node that does not depend on the released one waits for the same nodes as before. -/
theorem waiting_cons_of_notMem {released : List Nat} {other : Nat} (hother : other < graph.length)
    (h : other ∉ graph.dependents node) :
    waiting graph (node :: released) other = waiting graph released other := by
  rw [waiting_cons, List.filter_eq_self]
  intro v hv
  rw [bne_iff_ne]
  rintro rfl
  obtain ⟨hnext, hne, -⟩ := mem_waiting_iff.1 hv
  exact h (mem_dependents_iff.2 ⟨hother, hnext, hne⟩)

/-- A node that depends on the released one waits for one node fewer. -/
theorem length_waiting_cons (distinct : ∀ v, (graph.next v).Nodup) {released : List Nat}
    {other : Nat} (new : node ∉ released) (h : other ∈ graph.dependents node) :
    (waiting graph released other).length
      = (waiting graph (node :: released) other).length + 1 := by
  obtain ⟨-, hnext, hne⟩ := mem_dependents_iff.1 h
  have hmem : node ∈ waiting graph released other := mem_waiting_iff.2 ⟨hnext, hne, new⟩
  have hnodup : (waiting graph released other).Nodup := ((distinct other).filter _).filter _
  have hpos : 0 < (waiting graph released other).length := List.length_pos_of_mem hmem
  rw [waiting_cons, ← hnodup.erase_eq_filter, List.length_erase_of_mem hmem]
  omega

/-! ## Counting a dependency -/

/-- The ready nodes and one more. -/
theorem mem_insertReady_iff {ready : List Nat} {other : Nat} :
    other ∈ insertReady node ready ↔ other = node ∨ other ∈ ready := by
  induction ready with
  | nil => simp [insertReady]
  | cons first rest ih =>
    rw [insertReady]
    split
    · rw [List.mem_cons]
    · rw [List.mem_cons, ih, List.mem_cons]
      tauto

/-- Counting a dependency of a node lowers its counter, and it is ready when that was one. -/
theorem discharge_spec {count : Int} (h : p.pending.lookup node = some count) :
    ∃ next, p.discharge node = some next ∧ next.released = p.released ∧
      next.pending = (node, count - 1) :: p.pending ∧
      ∀ other, other ∈ next.ready
        ↔ other ∈ p.ready ∨ other = node ∧ count = 1 ∧ node ∉ p.released := by
  rw [Progress.discharge, h, Option.map_some]
  by_cases hready : count - 1 = 0 ∧ node ∉ p.released
  · refine ⟨_, congrArg some (if_pos hready), rfl, rfl, fun other => ?_⟩
    have hone : count = 1 := by omega
    show other ∈ insertReady node p.ready ↔ _
    rw [mem_insertReady_iff]
    tauto
  · refine ⟨_, congrArg some (if_neg hready), rfl, rfl, fun other => ?_⟩
    have hnot : ¬ (count = 1 ∧ node ∉ p.released) := by
      rintro ⟨hone, hnew⟩
      exact hready ⟨by omega, hnew⟩
    tauto

/-- What counting one dependency keeps is kept by a release. -/
theorem kept_of_release {P : Progress → Prop}
    (kept : ∀ {p node next}, P p → p.discharge node = some next → P next) {next : Progress}
    (h : P { p with released := node :: p.released }) (hnext : p.release graph node = some next) :
    P next := by
  have hfold : ∀ (nodes : List Nat) (q : Progress), P q →
      nodes.foldlM Progress.discharge q = some next → P next := by
    intro nodes
    induction nodes with
    | nil =>
      intro q hq hfold
      cases hfold
      exact hq
    | cons first rest ih =>
      intro q hq hfold
      rw [List.foldlM_cons] at hfold
      obtain ⟨r, hr, hrest⟩ := Option.bind_eq_some_iff.1 hfold
      exact ih r (kept hq hr) hrest
  exact hfold (graph.dependents node) _ h hnext

/-- Counting a dependency of each of some nodes lowers their counters and no others. -/
theorem foldlM_discharge_spec (nodes : List Nat) (nodup : nodes.Nodup) (p : Progress)
    (counted : ∀ v ∈ nodes, ∃ count, p.pending.lookup v = some count) :
    ∃ next, nodes.foldlM Progress.discharge p = some next ∧ next.released = p.released ∧
      (∀ v ∉ nodes, next.pending.lookup v = p.pending.lookup v) ∧
      (∀ v ∈ nodes, ∀ count, p.pending.lookup v = some count →
        next.pending.lookup v = some (count - 1)) ∧
      ∀ v, v ∈ next.ready
        ↔ v ∈ p.ready ∨ v ∈ nodes ∧ p.pending.lookup v = some 1 ∧ v ∉ p.released := by
  -- The nodes are different, so counting for the first leaves the counters of the others.
  induction nodes generalizing p with
  | nil =>
    refine ⟨p, rfl, rfl, fun v _ => rfl, ?_, ?_⟩
    · intro v hv
      cases hv
    · intro v
      simp
  | cons first rest ih =>
    obtain ⟨hfirst, hrest⟩ := List.nodup_cons.1 nodup
    obtain ⟨count, hcount⟩ := counted first List.mem_cons_self
    obtain ⟨middle, hdischarge, hreleased, hpending, hready⟩ := discharge_spec hcount
    have hkept : ∀ v, v ≠ first → middle.pending.lookup v = p.pending.lookup v := by
      intro v hv
      rw [hpending, lookup_cons_of_ne hv]
    have hne : ∀ v ∈ rest, v ≠ first := by
      rintro v hv rfl
      exact hfirst hv
    obtain ⟨next, hfold, hreleased', hothers, hlowered, hready'⟩ := ih hrest middle (by
      intro v hv
      rw [hkept v (hne v hv)]
      exact counted v (List.mem_cons_of_mem _ hv))
    refine ⟨next, ?_, hreleased'.trans hreleased, ?_, ?_, ?_⟩
    · rw [List.foldlM_cons, hdischarge]
      exact hfold
    · intro v hv
      obtain ⟨hv, hvrest⟩ := not_or.1 (mt List.mem_cons.2 hv)
      rw [hothers v hvrest, hkept v hv]
    · intro v hv c hc
      rcases List.mem_cons.1 hv with rfl | hv
      · rw [hothers v hfirst, hpending, List.lookup_cons_self]
        rw [hcount] at hc
        rw [Option.some.inj hc]
      · refine hlowered v hv c ?_
        rw [hkept v (hne v hv)]
        exact hc
    · intro v
      rw [hready', hready, hreleased, List.mem_cons]
      by_cases hv : v = first
      · subst hv
        rw [hcount, Option.some_inj]
        tauto
      · rw [hkept v hv]
        tauto

/-! ## One release -/

/-- What holds between two releases. -/
structure Releasing (graph : Graph) (p : Progress) : Prop where
  /-- The counters are those of the dependencies that have not been released. -/
  counted : ∀ v < graph.length,
    p.pending.lookup v = some ((waiting graph p.released v).length : Int)
  /-- What is ready waits for nothing. -/
  ready : ∀ v ∈ p.ready, v < graph.length ∧ waiting graph p.released v = []
  /-- What waits for nothing has been released or is ready. -/
  found : ∀ v < graph.length, waiting graph p.released v = [] → v ∈ p.released ∨ v ∈ p.ready
  /-- Nodes of the graph are released. -/
  inGraph : ∀ v ∈ p.released, v < graph.length
  /-- No node is released twice. -/
  nodup : p.released.Nodup
  /-- A node that has been released waits only for its own component. -/
  within : ∀ v ∈ p.released, graph.WaitsWithin p.released v
  /-- A node refers to one that was released later only within its own component. -/
  ordered : p.released.Pairwise fun later earlier =>
    later ∈ graph.next earlier → graph.Together earlier later

/-- Nothing has been released at the start. -/
theorem releasing_start (graph : Graph) : Releasing graph (Progress.start graph) := by
  have hwaiting : ∀ v, waiting graph [] v = graph.dependencies v := by
    intro v
    rw [waiting, List.filter_eq_self]
    simp
  have hready : ∀ v, v ∈ (Progress.start graph).ready
      ↔ v < graph.length ∧ graph.dependencies v = [] := by
    intro v
    show v ∈ (List.range graph.length).filter _ ↔ _
    rw [List.mem_filter, List.mem_range, List.isEmpty_iff]
  constructor
  · intro v hv
    show ((List.range graph.length).map fun node =>
      (node, ((graph.dependencies node).length : Int))).lookup v
        = some ((waiting graph [] v).length : Int)
    rw [hwaiting]
    refine lookup_of_mem ?_ (List.mem_map.2 ⟨v, List.mem_range.2 hv, rfl⟩)
    rw [List.map_map]
    exact (List.nodup_range (n := graph.length)).map fun a b hab => hab
  · intro v hv
    obtain ⟨hlt, hnil⟩ := (hready v).1 hv
    exact ⟨hlt, (hwaiting v).trans hnil⟩
  · intro v hv hnil
    exact Or.inr ((hready v).2 ⟨hv, (hwaiting v).symm.trans hnil⟩)
  · intro v hv
    cases hv
  · exact List.nodup_nil
  · intro v hv
    cases hv
  · exact List.Pairwise.nil

/-- The counter of a node that depends on the released one is one exactly if it then waits for
nothing. -/
theorem Releasing.lookup_eq_one_iff (distinct : ∀ v, (graph.next v).Nodup) (h : Releasing graph p)
    (new : node ∉ p.released) {v : Nat} (hv : v ∈ graph.dependents node) :
    p.pending.lookup v = some 1 ↔ waiting graph (node :: p.released) v = [] := by
  have hlength := length_waiting_cons distinct new hv
  rw [h.counted v (mem_dependents_iff.1 hv).1, Option.some_inj, ← List.length_eq_zero_iff]
  omega

/-- A release tells the nodes that depend on the released one: their counters are right again, and
those that wait for nothing any more are ready. -/
theorem Releasing.exists_release (distinct : ∀ v, (graph.next v).Nodup) (h : Releasing graph p)
    (new : node ∉ p.released) (ready broken : List Nat) :
    ∃ next, ({ p with ready := ready, broken := broken } : Progress).release graph node = some next ∧
      next.released = node :: p.released ∧
      (∀ v < graph.length,
        next.pending.lookup v = some ((waiting graph (node :: p.released) v).length : Int)) ∧
      ∀ v, v ∈ next.ready ↔ v ∈ ready ∨
        v ∈ graph.dependents node ∧ waiting graph (node :: p.released) v = [] ∧
          v ∉ node :: p.released := by
  have hdependents : ∀ v ∈ graph.dependents node, v < graph.length :=
    fun v hv => (mem_dependents_iff.1 hv).1
  obtain ⟨next, hfold, hreleased, hothers, hlowered, hready⟩ :=
    foldlM_discharge_spec (graph.dependents node) ((List.nodup_range).filter _)
      { p with ready := ready, broken := broken, released := node :: p.released }
      (fun v hv => ⟨_, h.counted v (hdependents v hv)⟩)
  refine ⟨next, hfold, hreleased, ?_, ?_⟩
  · intro v hv
    by_cases hdepends : v ∈ graph.dependents node
    · have hlength := length_waiting_cons distinct new hdepends
      rw [hlowered v hdepends _ (h.counted v hv), hlength]
      simp
    · rw [hothers v hdepends, waiting_cons_of_notMem hv hdepends]
      exact h.counted v hv
  · intro v
    rw [hready v]
    refine or_congr_right (and_congr_right fun hdepends => ?_)
    rw [h.lookup_eq_one_iff distinct new hdepends]

/-- **One release.**  A node that waits only for its own component can be released, whether or not it
is taken from those that are ready. -/
theorem Releasing.release (distinct : ∀ v, (graph.next v).Nodup) (h : Releasing graph p)
    (hnode : node < graph.length) (new : node ∉ p.released)
    (hwithin : graph.WaitsWithin p.released node) {ready broken : List Nat}
    (sub : ∀ v ∈ ready, v ∈ p.ready) (keep : ∀ v ∈ p.ready, v = node ∨ v ∈ ready) :
    ∃ next, ({ p with ready := ready, broken := broken } : Progress).release graph node = some next ∧
      Releasing graph next := by
  obtain ⟨next, hrelease, hreleased, hcounted, hready⟩ :=
    h.exists_release distinct new ready broken
  refine ⟨next, hrelease, {
    counted := ?counted
    ready := ?ready
    found := ?found
    inGraph := ?inGraph
    nodup := ?nodup
    within := ?within
    ordered := ?ordered }⟩
  all_goals rw [hreleased]
  case counted => exact hcounted
  case ready =>
    intro v hv
    rcases (hready v).1 hv with hv | ⟨hdepends, hnil, -⟩
    · obtain ⟨hlt, hnil⟩ := h.ready v (sub v hv)
      exact ⟨hlt, by rw [waiting_cons, hnil]; rfl⟩
    · exact ⟨(mem_dependents_iff.1 hdepends).1, hnil⟩
  case found =>
    intro v hv hnil
    by_cases hmem : v ∈ node :: p.released
    · exact Or.inl hmem
    · refine Or.inr ((hready v).2 ?_)
      obtain ⟨hne, hnew⟩ := not_or.1 (mt List.mem_cons.2 hmem)
      by_cases hdepends : v ∈ graph.dependents node
      · -- Its last dependency has just been released.
        exact Or.inr ⟨hdepends, hnil, hmem⟩
      · -- It waited for nothing before, so it was found to be ready then.
        rw [waiting_cons_of_notMem hv hdepends] at hnil
        rcases h.found v hv hnil with hold | hold
        · exact absurd hold hnew
        · exact Or.inl ((keep v hold).resolve_left hne)
  case inGraph => exact List.forall_mem_cons.2 ⟨hnode, h.inGraph⟩
  case nodup => exact List.nodup_cons.2 ⟨new, h.nodup⟩
  case within =>
    have hall : ∀ v ∈ node :: p.released, graph.WaitsWithin p.released v :=
      List.forall_mem_cons.2 ⟨hwithin, h.within⟩
    intro v hv other hother
    exact (hall v hv other hother).imp_left (List.mem_cons_of_mem _)
  case ordered =>
    refine List.Pairwise.cons ?_ h.ordered
    intro earlier hearlier hnext
    -- The earlier one waited for the node, so it can only be of the same component.
    exact (h.within earlier hearlier node hnext).resolve_left new

/-! ## All releases -/

/-- As long as fewer nodes than there are have been released, one remains. -/
theorem exists_left (lt : p.released.length < graph.length) :
    ∃ node < graph.length, node ∉ p.released := by
  by_contra hnone
  have hsub : List.range graph.length ⊆ p.released := by
    intro v hv
    by_contra hnot
    exact hnone ⟨v, List.mem_range.1 hv, hnot⟩
  have hle := (List.nodup_range.subperm hsub).length_le
  rw [List.length_range] at hle
  omega

/-- When as many nodes as there are have been released, each of them has been released once. -/
theorem Releasing.perm_range (h : Releasing graph p) (le : graph.length ≤ p.released.length) :
    p.released.Perm (List.range graph.length) := by
  have hsub : p.released ⊆ List.range graph.length :=
    fun v hv => List.mem_range.2 (h.inGraph v hv)
  refine (h.nodup.subperm hsub).perm_of_length_le ?_
  rw [List.length_range]
  exact le

/-- A ready node that has been released before is dropped. -/
theorem Releasing.drop (h : Releasing graph p) {rest : List Nat} (hready : p.ready = node :: rest)
    (old : node ∈ p.released) : Releasing graph { p with ready := rest } where
  counted := h.counted
  ready := by
    intro v hv
    refine h.ready v ?_
    rw [hready]
    exact List.mem_cons_of_mem _ hv
  found := by
    intro v hv hnil
    rcases h.found v hv hnil with hold | hold
    · exact Or.inl hold
    · rw [hready] at hold
      rcases List.mem_cons.1 hold with rfl | hold
      · exact Or.inl old
      · exact Or.inr hold
  inGraph := h.inGraph
  nodup := h.nodup
  within := h.within
  ordered := h.ordered

/-- A ready node that has not been released before can be released. -/
theorem Releasing.release_ready (distinct : ∀ v, (graph.next v).Nodup) (h : Releasing graph p)
    {rest : List Nat} (hready : p.ready = node :: rest) (new : node ∉ p.released) :
    ∃ next, ({ p with ready := rest } : Progress).release graph node = some next ∧
      Releasing graph next := by
  have hmem : ∀ v, v ∈ p.ready ↔ v = node ∨ v ∈ rest := by
    intro v
    rw [hready, List.mem_cons]
  obtain ⟨hlt, hnil⟩ := h.ready node ((hmem node).2 (Or.inl rfl))
  exact h.release distinct hlt new (waitsWithin_of_waiting_eq_nil hnil)
    (fun v hv => (hmem v).2 (Or.inr hv)) (fun v hv => (hmem v).1 hv)

/-- A node at which a cycle is broken can be released. -/
theorem Releasing.release_breaking {components : List (List Nat)} (closed : graph.Closed)
    (distinct : ∀ v, (graph.next v).Nodup) (hcomponents : AreComponents graph components)
    {name? : Nat → Option Text} (h : Releasing graph p)
    (hfound : breakingNode? graph (componentOf components) name? p.released = some node) :
    ∃ next, ({ p with broken := node :: p.broken } : Progress).release graph node = some next ∧
      Releasing graph next := by
  obtain ⟨hlt, hnew, hwithin⟩ := waitsWithin_of_breakingNode? closed hcomponents hfound
  exact h.release distinct hlt hnew hwithin (fun v hv => hv) (fun v hv => Or.inr hv)

/-- What every step of releasing keeps besides what holds between two releases. -/
structure Kept (graph : Graph) (component : NodeMap Nat) (name? : Nat → Option Text)
    (I : Progress → Prop) : Prop where
  /-- It is kept when a ready node is dropped. -/
  drop : ∀ {p node rest}, Releasing graph p → I p → p.ready = node :: rest → node ∈ p.released →
    I { p with ready := rest }
  /-- It is kept when a ready node is released. -/
  ready : ∀ {p node rest next}, Releasing graph p → I p → p.ready = node :: rest →
    node ∉ p.released → ({ p with ready := rest } : Progress).release graph node = some next → I next
  /-- It is kept when a cycle is broken. -/
  breaking : ∀ {p node next}, Releasing graph p → I p → p.ready = [] →
    breakingNode? graph component name? p.released = some node →
    ({ p with broken := node :: p.broken } : Progress).release graph node = some next → I next

/-- Nothing fails before every declaration has been released, and what the steps keep holds then. -/
theorem releaseAll_kept {components : List (List Nat)} (closed : graph.Closed)
    (distinct : ∀ v, (graph.next v).Nodup) (hcomponents : AreComponents graph components)
    {name? : Nat → Option Text} (named : ∀ node < graph.length, ∃ name, name? node = some name)
    {I : Progress → Prop} (kept : Kept graph (componentOf components) name? I)
    (p : Progress) (h : Releasing graph p) (hp : I p) :
    ∃ last, releaseAll graph (componentOf components) name? p = .ok last ∧ Releasing graph last ∧
      I last ∧ last.released.Perm (List.range graph.length) := by
  -- The invariant carries the induction: it gives each release that the next state comes from.
  fun_induction releaseAll graph (componentOf components) name? p with
  | case1 p lt node rest ready less old ih =>
    have hold := List.contains_iff_mem.1 old
    exact ih (h.drop ready hold) (kept.drop h hp ready hold)
  | case2 p lt node rest ready less new failed =>
    obtain ⟨next, hrelease, -⟩ :=
      h.release_ready distinct ready (mt List.contains_iff_mem.2 new)
    rw [failed] at hrelease
    cases hrelease
  | case3 p lt node rest ready less new next found released ih =>
    have hnew := mt List.contains_iff_mem.2 new
    obtain ⟨next', hrelease, hnext⟩ := h.release_ready distinct ready hnew
    obtain rfl : next = next' := Option.some.inj (found.symm.trans hrelease)
    exact ih hnext (kept.ready h hp ready hnew found)
  | case4 p lt ready none =>
    obtain ⟨node, hnode⟩ := exists_breakingNode closed hcomponents named (exists_left lt)
    rw [none] at hnode
    cases hnode
  | case5 p lt ready node breaking failed =>
    obtain ⟨next, hrelease, -⟩ := h.release_breaking closed distinct hcomponents breaking
    rw [failed] at hrelease
    cases hrelease
  | case6 p lt ready node breaking next found released ih =>
    obtain ⟨next', hrelease, hnext⟩ := h.release_breaking closed distinct hcomponents breaking
    obtain rfl : next = next' := Option.some.inj (found.symm.trans hrelease)
    exact ih hnext (kept.breaking h hp ready breaking found)
  | case7 p done =>
    exact ⟨p, rfl, h, hp, h.perm_range (Nat.le_of_not_lt done)⟩

/-- **All releases.**  Nothing fails before every declaration has been released. -/
theorem releaseAll_spec {components : List (List Nat)} (closed : graph.Closed)
    (distinct : ∀ v, (graph.next v).Nodup) (hcomponents : AreComponents graph components)
    {name? : Nat → Option Text} (named : ∀ node < graph.length, ∃ name, name? node = some name)
    (p : Progress) (h : Releasing graph p) :
    ∃ last, releaseAll graph (componentOf components) name? p = .ok last ∧ Releasing graph last ∧
      last.released.Perm (List.range graph.length) := by
  have kept : Kept graph (componentOf components) name? fun _ => True :=
    ⟨fun _ _ _ _ => trivial, fun _ _ _ _ _ => trivial, fun _ _ _ _ _ => trivial⟩
  obtain ⟨last, hlast, hreleasing, -, hperm⟩ :=
    releaseAll_kept closed distinct hcomponents named kept p h trivial
  exact ⟨last, hlast, hreleasing, hperm⟩

end SchemaCodecs.Order
