/-
# What holds while a graph is searched

The stack falls into segments, one for each frame of the work: the nodes of a segment are all
together, and every reference from them that has been followed leads to a node that has left the
stack or has at least the number that is noted for the frame.  Meeting a node adds a segment, and
following references to nodes that have been met leaves the segments.

* `FrameSound` : what holds of a frame and its segment;
* `Searching` : what holds of a search with its work;
* `Searching.descend`, `Searching.skip`, `Searching.follow` : following a reference.
-/
import SchemaCodecs.Order.Components
import SchemaCodecs.Proofs.Order.Reach
import Mathlib.Data.List.Forall2
import Mathlib.Data.List.Nodup
import Mathlib.Data.List.Pairwise

namespace SchemaCodecs

/-! ## Node maps -/

theorem lookup_cons_of_ne {α : Type} {node other : Nat} (h : other ≠ node) (a : α)
    (map : NodeMap α) : List.lookup other ((node, a) :: map) = map.lookup other := by
  rw [List.lookup_cons, beq_eq_false_iff_ne.2 h]

/-- Each item of one list has its counterpart in the other. -/
theorem exists_of_forall₂ {α β : Type} {R : α → β → Prop} {xs : List α} {ys : List β}
    (h : List.Forall₂ R xs ys) {x : α} (hx : x ∈ xs) : ∃ y ∈ ys, R x y := by
  induction h with
  | nil => cases hx
  | cons hhead _ ih =>
    rcases List.mem_cons.1 hx with rfl | hx
    · exact ⟨_, List.mem_cons_self, hhead⟩
    · obtain ⟨y, hy, hR⟩ := ih hx
      exact ⟨y, List.mem_cons_of_mem _ hy, hR⟩

namespace Search

variable {graph : Graph} {s next : Search} {frame : Frame} {segment : List Nat}
  {work : List Frame} {segments : List (List Nat)} {low index node : Nat}

/-! ## Invariants -/

/-- A node has been met, and while it is on the stack its number is not below the given one. -/
def Settled (s : Search) (low node : Nat) : Prop :=
  ∃ index, s.indices.lookup node = some index ∧ (node ∈ s.stack → low ≤ index)

/-- What holds of a frame of the work and its segment of the stack, of which the node of the frame
was met first. -/
structure FrameSound (graph : Graph) (s : Search) (frame : Frame) (segment : List Nat)
    (low index : Nat) : Prop where
  /-- The node of the frame is the last one of the segment. -/
  last : ∃ above, segment = above ++ [frame.node]
  /-- The nodes of the segment are together. -/
  together : ∀ v ∈ segment, graph.Together frame.node v
  /-- The number that is noted for the node. -/
  lowlink : s.lowlinks.lookup frame.node = some low
  /-- The number of the node. -/
  number : s.indices.lookup frame.node = some index
  /-- The first is not above the second. -/
  le : low ≤ index
  /-- The noted number is that of a node on the stack which can be reached. -/
  reached : ∃ v ∈ s.stack, s.indices.lookup v = some low ∧ graph.Reach frame.node v
  /-- The references from the segment have been followed, except those that remain. -/
  followed : ∀ v ∈ segment, ∀ w ∈ graph.next v,
    (v = frame.node ∧ w ∈ frame.rest) ∨ s.Settled low w
  /-- What remains are references of the node. -/
  remaining : ∀ w ∈ frame.rest, w ∈ graph.next frame.node

/-- What holds of the nodes that have been met. -/
structure Explored (graph : Graph) (s : Search) : Prop where
  /-- Numbers are given in order. -/
  fresh : ∀ v i, s.indices.lookup v = some i → i < s.count
  /-- The nodes that have been met are on the stack or in components. -/
  met : ∀ v, (∃ i, s.indices.lookup v = some i) ↔ v ∈ s.stack ∨ v ∈ s.components.flatten
  /-- They are nodes of the graph. -/
  inGraph : ∀ v i, s.indices.lookup v = some i → v < graph.length
  /-- The stack has the nodes in the order in which they were met. -/
  ordered : s.stack.Pairwise fun a b =>
    ∀ i j, s.indices.lookup a = some i → s.indices.lookup b = some j → j < i
  /-- No node is both on the stack and in a component. -/
  apart : ∀ v ∈ s.stack, v ∉ s.components.flatten
  /-- No node is twice in a component. -/
  nodup : s.components.flatten.Nodup
  /-- No reference leads out of the components. -/
  closed : ∀ v, v ∈ s.components.flatten → ∀ w ∈ graph.next v, w ∈ s.components.flatten
  /-- A component has all nodes that are together with one of its nodes, and only those. -/
  components : ∀ component ∈ s.components,
    component ≠ [] ∧ ∀ v ∈ component, ∀ w, w ∈ component ↔ graph.Together v w

/-- What holds while nodes are searched. -/
structure Searching (graph : Graph) (s : Search) (work : List Frame)
    (segments : List (List Nat)) : Prop extends Explored graph s where
  /-- The stack is made of segments. -/
  stack_eq : s.stack = segments.flatten
  /-- Each frame has its segment. -/
  frames : List.Forall₂
    (fun frame segment => ∃ low index, FrameSound graph s frame segment low index) work segments
  /-- The nodes of later frames lead to those of earlier ones. -/
  way : work.Pairwise fun upper lower => graph.Reach lower.node upper.node

/-! ## Facts about the invariants -/

theorem Searching.mem_stack_iff (h : Searching graph s work (segment :: segments)) {v : Nat} :
    v ∈ s.stack ↔ v ∈ segment ∨ v ∈ segments.flatten := by
  rw [h.stack_eq, List.flatten_cons, List.mem_append]

theorem Explored.exists_index (h : Explored graph s) (hnode : node ∈ s.stack) :
    ∃ i, s.indices.lookup node = some i :=
  (h.met node).2 (Or.inl hnode)

/-- No node is on the stack twice. -/
theorem Explored.nodup_stack (h : Explored graph s) : s.stack.Nodup := by
  rw [List.Nodup]
  refine List.Pairwise.imp_of_mem ?_ h.ordered
  rintro a b ha - hab rfl
  obtain ⟨i, hi⟩ := h.exists_index ha
  exact Nat.lt_irrefl i (hab i i hi hi)

theorem FrameSound.node_mem (h : FrameSound graph s frame segment low index) :
    frame.node ∈ segment := by
  obtain ⟨above, rfl⟩ := h.last
  exact List.mem_append_right _ List.mem_cons_self

/-- A frame stays sound when the noted numbers of other nodes change. -/
theorem FrameSound.congr (h : FrameSound graph s frame segment low index)
    (hindices : next.indices = s.indices) (hstack : next.stack = s.stack)
    (hlow : next.lowlinks.lookup frame.node = s.lowlinks.lookup frame.node) :
    FrameSound graph next frame segment low index where
  last := h.last
  together := h.together
  lowlink := hlow.trans h.lowlink
  number := by
    rw [hindices]
    exact h.number
  le := h.le
  reached := by
    rw [hindices, hstack]
    exact h.reached
  followed := by
    unfold Settled
    rw [hindices, hstack]
    exact h.followed
  remaining := h.remaining

/-- Following a reference to a settled node leaves the frame sound. -/
theorem FrameSound.follow {succ : Nat} {rest : List Nat}
    (h : FrameSound graph s ⟨node, succ :: rest⟩ segment low index) (settled : s.Settled low succ) :
    FrameSound graph s ⟨node, rest⟩ segment low index where
  last := h.last
  together := h.together
  lowlink := h.lowlink
  number := h.number
  le := h.le
  reached := h.reached
  followed := by
    intro v hv w hw
    rcases h.followed v hv w hw with ⟨hnode, hrest⟩ | hsettled
    · rcases List.mem_cons.1 hrest with rfl | hrest
      · exact Or.inr settled
      · exact Or.inl ⟨hnode, hrest⟩
    · exact Or.inr hsettled
  remaining := fun w hw => h.remaining w (List.mem_cons_of_mem _ hw)

/-! ## Meeting a node -/

/-- A node that has been met keeps its number. -/
theorem lookup_enter_of_some {v i : Nat} (new : s.indices.lookup node = none)
    (h : s.indices.lookup v = some i) : (s.enter node).indices.lookup v = some i := by
  have hne : v ≠ node := by
    rintro rfl
    rw [new] at h
    cases h
  rw [enter, lookup_cons_of_ne hne]
  exact h

/-- A frame stays sound when a node is met. -/
theorem FrameSound.enter (h : FrameSound graph s frame segment low index)
    (new : s.indices.lookup node = none) :
    FrameSound graph (s.enter node) frame segment low index where
  last := h.last
  together := h.together
  lowlink := by
    have hne : frame.node ≠ node := by
      rintro rfl
      have hnumber := h.number
      rw [new] at hnumber
      cases hnumber
    rw [Search.enter, lookup_cons_of_ne hne]
    exact h.lowlink
  number := lookup_enter_of_some new h.number
  le := h.le
  reached := by
    obtain ⟨v, hv, hlow, hreach⟩ := h.reached
    exact ⟨v, List.mem_cons_of_mem _ hv, lookup_enter_of_some new hlow, hreach⟩
  followed := by
    intro v hv w hw
    refine (h.followed v hv w hw).imp_right ?_
    rintro ⟨i, hi, hle⟩
    refine ⟨i, lookup_enter_of_some new hi, ?_⟩
    intro hmem
    rcases List.mem_cons.1 hmem with rfl | hmem
    · rw [new] at hi
      cases hi
    · exact hle hmem
  remaining := h.remaining

/-- A node that has a number after one is met is that one, with the next number, or had it before. -/
theorem eq_or_lookup_of_enter {v i : Nat} (h : (s.enter node).indices.lookup v = some i) :
    (v = node ∧ i = s.count) ∨ s.indices.lookup v = some i := by
  by_cases hv : v = node
  · subst hv
    rw [Search.enter, List.lookup_cons_self] at h
    exact Or.inl ⟨rfl, (Option.some.inj h).symm⟩
  · rw [Search.enter, lookup_cons_of_ne hv] at h
    exact Or.inr h

theorem Explored.ne_of_mem (h : Explored graph s) (new : s.indices.lookup node = none) :
    ∀ v ∈ s.stack, v ≠ node := by
  rintro v hv rfl
  obtain ⟨i, hi⟩ := h.exists_index hv
  rw [new] at hi
  cases hi

/-- A node that is met has a higher number than those on the stack. -/
theorem Explored.ordered_enter (h : Explored graph s) (new : s.indices.lookup node = none) :
    (s.enter node).stack.Pairwise fun a b => ∀ i j,
      (s.enter node).indices.lookup a = some i → (s.enter node).indices.lookup b = some j →
        j < i := by
  have hold : ∀ v ∈ s.stack, ∀ i, (s.enter node).indices.lookup v = some i →
      s.indices.lookup v = some i := by
    intro v hv i hi
    exact (eq_or_lookup_of_enter hi).resolve_left fun hnode => h.ne_of_mem new v hv hnode.1
  refine List.Pairwise.cons ?_ ?_
  · intro v hv i j hi hj
    have hfirst : (s.enter node).indices.lookup node = some s.count := List.lookup_cons_self
    have hcount : i = s.count := Option.some.inj (hi.symm.trans hfirst)
    rw [hcount]
    exact h.fresh v j (hold v hv j hj)
  · refine List.Pairwise.imp_of_mem ?_ h.ordered
    intro a b ha hb hab i j hi hj
    exact hab i j (hold a ha i hi) (hold b hb j hj)

/-- What holds of the nodes that have been met still holds when one more is met. -/
theorem Explored.enter (h : Explored graph s) (new : s.indices.lookup node = none)
    (hnode : node < graph.length) : Explored graph (s.enter node) := by
  constructor
  · intro v i hi
    rcases eq_or_lookup_of_enter hi with ⟨-, rfl⟩ | hi
    · exact Nat.lt_succ_self _
    · exact Nat.lt_succ_of_lt (h.fresh v i hi)
  · intro v
    constructor
    · rintro ⟨i, hi⟩
      rcases eq_or_lookup_of_enter hi with ⟨rfl, -⟩ | hi
      · exact Or.inl List.mem_cons_self
      · exact ((h.met v).1 ⟨i, hi⟩).imp_left (List.mem_cons_of_mem _)
    · rintro (hv | hv)
      · rcases List.mem_cons.1 hv with rfl | hv
        · exact ⟨s.count, List.lookup_cons_self⟩
        · obtain ⟨i, hi⟩ := (h.met v).2 (Or.inl hv)
          exact ⟨i, lookup_enter_of_some new hi⟩
      · obtain ⟨i, hi⟩ := (h.met v).2 (Or.inr hv)
        exact ⟨i, lookup_enter_of_some new hi⟩
  · intro v i hi
    rcases eq_or_lookup_of_enter hi with ⟨rfl, -⟩ | hi
    · exact hnode
    · exact h.inGraph v i hi
  · exact h.ordered_enter new
  · intro v hv
    rcases List.mem_cons.1 hv with rfl | hv
    · intro hmem
      obtain ⟨i, hi⟩ := (h.met v).2 (Or.inr hmem)
      rw [new] at hi
      cases hi
    · exact h.apart v hv
  · exact h.nodup
  · exact h.closed
  · exact h.components

/-- The frame of a node that has just been met is sound. -/
theorem frameSound_enter (s : Search) (node : Nat) :
    FrameSound graph (s.enter node) ⟨node, graph.next node⟩ [node] s.count s.count where
  last := ⟨[], rfl⟩
  together := by
    intro v hv
    rw [List.mem_singleton.1 hv]
    exact Graph.Together.refl graph node
  lowlink := List.lookup_cons_self
  number := List.lookup_cons_self
  le := Nat.le_refl _
  reached := ⟨node, List.mem_cons_self, List.lookup_cons_self, Graph.Reach.refl graph node⟩
  followed := by
    intro v hv w hw
    obtain rfl := List.mem_singleton.1 hv
    exact Or.inl ⟨rfl, hw⟩
  remaining := fun w hw => hw

/-- Meeting a node that the work leads to adds a frame and a segment. -/
theorem Searching.enter (h : Searching graph s work segments)
    (new : s.indices.lookup node = none) (hnode : node < graph.length)
    (hreach : ∀ frame ∈ work, graph.Reach frame.node node) :
    Searching graph (s.enter node) (⟨node, graph.next node⟩ :: work) ([node] :: segments) where
  toExplored := h.toExplored.enter new hnode
  stack_eq := by
    rw [List.flatten_cons, ← h.stack_eq]
    rfl
  frames := by
    refine List.Forall₂.cons ⟨_, _, frameSound_enter s node⟩ (h.frames.imp ?_)
    rintro frame segment ⟨low, index, hframe⟩
    exact ⟨low, index, hframe.enter new⟩
  way := List.Pairwise.cons hreach h.way

/-! ## The first frame -/

section First

variable {rest : List Nat} {succ : Nat}

theorem Searching.first (h : Searching graph s (frame :: work) (segment :: segments)) :
    ∃ low index, FrameSound graph s frame segment low index :=
  (List.forall₂_cons.1 h.frames).1

/-- The later frames have their segments below the first one. -/
theorem Searching.node_mem_flatten
    (h : Searching graph s (frame :: work) (segment :: segments)) :
    ∀ other ∈ work, other.node ∈ segments.flatten := by
  have hrest := (List.forall₂_cons.1 h.frames).2
  intro other hother
  obtain ⟨below, hbelow, low, index, hsound⟩ := exists_of_forall₂ hrest hother
  exact List.mem_flatten_of_mem hbelow hsound.node_mem

/-- The nodes of the first segment are not among those below. -/
theorem Searching.disjoint (h : Searching graph s (frame :: work) (segment :: segments)) :
    List.Disjoint segment segments.flatten := by
  have hnodup := h.nodup_stack
  rw [h.stack_eq, List.flatten_cons] at hnodup
  exact List.disjoint_of_nodup_append hnodup

/-- The node of the first frame is not that of a later one. -/
theorem Searching.node_ne (h : Searching graph s (frame :: work) (segment :: segments)) :
    ∀ other ∈ work, other.node ≠ frame.node := by
  intro other hother heq
  obtain ⟨low, index, hframe⟩ := h.first
  refine h.disjoint hframe.node_mem ?_
  rw [← heq]
  exact h.node_mem_flatten other hother

/-- The first frame can be exchanged for one of the same node. -/
theorem Searching.exchange (h : Searching graph s (⟨node, rest⟩ :: work) (segment :: segments))
    {rest' : List Nat} (hframe : FrameSound graph s ⟨node, rest'⟩ segment low index) :
    Searching graph s (⟨node, rest'⟩ :: work) (segment :: segments) where
  toExplored := h.toExplored
  stack_eq := h.stack_eq
  frames := List.Forall₂.cons ⟨low, index, hframe⟩ (List.forall₂_cons.1 h.frames).2
  way := List.Pairwise.cons (List.pairwise_cons.1 h.way).1 (List.pairwise_cons.1 h.way).2

/-! ## Following references -/

/-- The second frame of the work can be exchanged for one of the same node. -/
theorem Searching.exchange_second {upper : Frame} {above : List Nat}
    (h : Searching graph s (upper :: ⟨node, rest⟩ :: work) (above :: segment :: segments))
    {rest' : List Nat} (hframe : FrameSound graph s ⟨node, rest'⟩ segment low index) :
    Searching graph s (upper :: ⟨node, rest'⟩ :: work) (above :: segment :: segments) where
  toExplored := h.toExplored
  stack_eq := h.stack_eq
  frames := by
    obtain ⟨hupper, hrest⟩ := List.forall₂_cons.1 h.frames
    exact List.Forall₂.cons hupper
      (List.Forall₂.cons ⟨low, index, hframe⟩ (List.forall₂_cons.1 hrest).2)
  way := by
    have hway := h.way
    simp only [List.pairwise_cons, List.forall_mem_cons] at hway ⊢
    exact hway

/-- Following a reference to a node that has not been met descends to it. -/
theorem Searching.descend (closed : graph.Closed)
    (h : Searching graph s (⟨node, succ :: rest⟩ :: work) (segment :: segments))
    (new : s.indices.lookup succ = none) :
    Searching graph (s.enter succ) (⟨succ, graph.next succ⟩ :: ⟨node, rest⟩ :: work)
      ([succ] :: segment :: segments) := by
  obtain ⟨low, index, hframe⟩ := h.first
  have hstep : succ ∈ graph.next node := hframe.remaining succ List.mem_cons_self
  have hentered := h.enter new (closed node succ hstep) (by
    intro other hother
    rcases List.mem_cons.1 hother with rfl | hother
    · exact Graph.Reach.of_mem hstep
    · have hway : graph.Reach other.node node := (List.pairwise_cons.1 h.way).1 other hother
      exact hway.trans (Graph.Reach.of_mem hstep))
  -- The new node has the highest number so far.
  have hsettled : (s.enter succ).Settled low succ := by
    refine ⟨s.count, List.lookup_cons_self, fun _ => ?_⟩
    have hlt : index < s.count := h.fresh node index hframe.number
    have hle := hframe.le
    omega
  exact hentered.exchange_second ((hframe.enter new).follow hsettled)

/-- A reference to a node in a component need not be followed. -/
theorem Searching.skip
    (h : Searching graph s (⟨node, succ :: rest⟩ :: work) (segment :: segments)) {i : Nat}
    (met : s.indices.lookup succ = some i) (off : succ ∉ s.stack) :
    Searching graph s (⟨node, rest⟩ :: work) (segment :: segments) := by
  obtain ⟨low, index, hframe⟩ := h.first
  exact h.exchange (hframe.follow ⟨i, met, fun hmem => absurd hmem off⟩)

/-! ## Lowering numbers -/

/-- A frame stays sound when a number that can be reached is noted for it. -/
theorem FrameSound.lower (h : FrameSound graph s frame segment low index) {v i : Nat}
    (hv : v ∈ s.stack) (hi : s.indices.lookup v = some i) (hreach : graph.Reach frame.node v) :
    FrameSound graph { s with lowlinks := (frame.node, min low i) :: s.lowlinks } frame segment
      (min low i) index where
  last := h.last
  together := h.together
  lowlink := List.lookup_cons_self
  number := h.number
  le := Nat.le_trans (Nat.min_le_left low i) h.le
  reached := by
    rcases Nat.le_total low i with hle | hle
    · rw [Nat.min_eq_left hle]
      exact h.reached
    · rw [Nat.min_eq_right hle]
      exact ⟨v, hv, hi, hreach⟩
  followed := by
    intro u hu w hw
    refine (h.followed u hu w hw).imp_right ?_
    rintro ⟨j, hj, hle⟩
    exact ⟨j, hj, fun hmem => Nat.le_trans (Nat.min_le_left low i) (hle hmem)⟩
  remaining := h.remaining

/-- The number of a node on the stack can be noted for each frame from which it can be reached. -/
theorem Searching.lower (h : Searching graph s work segments) (hframe : frame ∈ work) {v i : Nat}
    (hv : v ∈ s.stack) (hi : s.indices.lookup v = some i) (hreach : graph.Reach frame.node v) :
    ∃ next low, s.lower frame.node i = some next ∧ next.indices = s.indices ∧
      next.stack = s.stack ∧ next.lowlinks = (frame.node, min low i) :: s.lowlinks ∧
      Searching graph next work segments := by
  obtain ⟨segment, -, low, index, hsound⟩ := exists_of_forall₂ h.frames hframe
  refine ⟨{ s with lowlinks := (frame.node, min low i) :: s.lowlinks }, low, ?_, rfl, rfl, rfl, ?_⟩
  · rw [Search.lower, hsound.lowlink]
    rfl
  refine ⟨⟨h.fresh, h.met, h.inGraph, h.ordered, h.apart, h.nodup, h.closed, h.components⟩,
    h.stack_eq, h.frames.imp ?_, h.way⟩
  rintro other segment' ⟨low', index', hother⟩
  -- Only a frame of this node has another number now.
  by_cases hnode : other.node = frame.node
  · have hlow : low' = low := by
      have hsame := hother.lowlink
      rw [hnode, hsound.lowlink] at hsame
      exact (Option.some.inj hsame).symm
    refine ⟨min low' i, index', ?_⟩
    rw [← hnode] at hreach ⊢
    rw [← hlow]
    exact hother.lower hv hi hreach
  · exact ⟨low', index', hother.congr rfl rfl (lookup_cons_of_ne hnode _ _)⟩

/-- Following a reference to a node on the stack notes its number. -/
theorem Searching.follow
    (h : Searching graph s (⟨node, succ :: rest⟩ :: work) (segment :: segments)) {i : Nat}
    (met : s.indices.lookup succ = some i) (on : succ ∈ s.stack) :
    ∃ next, s.lower node i = some next ∧ next.indices = s.indices ∧
      Searching graph next (⟨node, rest⟩ :: work) (segment :: segments) := by
  obtain ⟨_, _, hframe⟩ := h.first
  have hstep : succ ∈ graph.next node := hframe.remaining succ List.mem_cons_self
  obtain ⟨next, low, hlower, hindices, -, hlowlinks, hnext⟩ :=
    h.lower List.mem_cons_self on met (Graph.Reach.of_mem hstep)
  obtain ⟨low', index, hlowered⟩ := hnext.first
  have hlow : low' = min low i := by
    have hsame := hlowered.lowlink
    rw [hlowlinks, List.lookup_cons_self] at hsame
    exact (Option.some.inj hsame).symm
  have hsettled : next.Settled low' succ := by
    refine ⟨i, by rw [hindices, met], fun _ => ?_⟩
    rw [hlow]
    exact Nat.min_le_right low i
  exact ⟨next, hlower, hindices, hnext.exchange (hlowered.follow hsettled)⟩

end First

end Search

end SchemaCodecs
