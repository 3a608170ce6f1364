/-
# The components that the search finds

A node is left when all its references have been followed.  If the number that is noted for it is its
own, no way leads out of its segment and back, and the segment is a component; otherwise the segment
joins the one below it.  So the search neither fails nor finds anything but the strongly connected
components.

* `Searching.close`, `Searching.merge` : leaving a node;
* `visit_spec` : the search to the end of its work;
* `exists_components` : the components of a graph.
-/
import SchemaCodecs.Proofs.Order.Search

namespace SchemaCodecs

namespace Search

variable {graph : Graph} {s next : Search} {frame : Frame} {segment : List Nat}
  {work : List Frame} {segments : List (List Nat)} {low index node : Nat}

/-! ## Numbers on the stack -/

theorem Searching.lt_of_mem (h : Searching graph s work (segment :: segments)) {v u i j : Nat}
    (hv : v ∈ segment) (hu : u ∈ segments.flatten) (hi : s.indices.lookup v = some i)
    (hj : s.indices.lookup u = some j) : j < i := by
  have hordered := h.ordered
  rw [h.stack_eq, List.flatten_cons, List.pairwise_append] at hordered
  exact hordered.2.2 v hv u hu i j hi hj

/-- The node of the first frame has the lowest number of its segment. -/
theorem Searching.le_of_mem (h : Searching graph s (frame :: work) (segment :: segments))
    (hframe : FrameSound graph s frame segment low index) {v i : Nat} (hv : v ∈ segment)
    (hi : s.indices.lookup v = some i) : index ≤ i := by
  obtain ⟨above, rfl⟩ := hframe.last
  have hordered := h.ordered
  rw [h.stack_eq, List.flatten_cons, List.pairwise_append, List.pairwise_append] at hordered
  rcases List.mem_append.1 hv with hv | hv
  · exact Nat.le_of_lt
      (hordered.1.2.2 v hv frame.node List.mem_cons_self i index hi hframe.number)
  · obtain rfl := List.mem_singleton.1 hv
    rw [hframe.number] at hi
    exact Nat.le_of_eq (Option.some.inj hi)

/-- A node on the stack that does not have a lower number than the first frame is in its segment. -/
theorem Searching.mem_segment (h : Searching graph s (frame :: work) (segment :: segments))
    (hframe : FrameSound graph s frame segment low index) {v i : Nat} (hv : v ∈ s.stack)
    (hi : s.indices.lookup v = some i) (hle : index ≤ i) : v ∈ segment := by
  rcases h.mem_stack_iff.1 hv with hv | hv
  · exact hv
  · have hlt := h.lt_of_mem hframe.node_mem hv hframe.number hi
    omega

/-- Every node on the stack leads to the node of the first frame. -/
theorem reach_of_mem_flatten
    (frames : List.Forall₂
      (fun frame segment => ∃ low index, FrameSound graph s frame segment low index)
      (frame :: work) segments)
    (way : (frame :: work).Pairwise fun upper lower => graph.Reach lower.node upper.node) {v : Nat}
    (hv : v ∈ segments.flatten) : graph.Reach v frame.node := by
  obtain ⟨own, hown, hmem⟩ := List.mem_flatten.1 hv
  obtain ⟨other, hother, low, index, hsound⟩ := exists_of_forall₂ frames.flip hown
  have hback : graph.Reach v other.node := (hsound.together v hmem).2
  rcases List.mem_cons.1 hother with rfl | hother
  · exact hback
  · exact hback.trans ((List.pairwise_cons.1 way).1 other hother)

/-! ## Closing a component -/

/-- The nodes on a stack down to one that is not found before. -/
theorem popUntil_append {above rest : List Nat} (h : node ∉ above) :
    popUntil node (above ++ node :: rest) = some (above ++ [node], rest) := by
  induction above with
  | nil => exact if_pos rfl
  | cons first above ih =>
    obtain ⟨hne, habove⟩ := not_or.1 (mt List.mem_cons.2 h)
    rw [List.cons_append, popUntil, if_neg (Ne.symm hne), ih habove]
    rfl

/-- No reference leads out of a segment that is complete and the components. -/
theorem Searching.closed_close (h : Searching graph s (⟨node, []⟩ :: work) (segment :: segments))
    (hframe : FrameSound graph s ⟨node, []⟩ segment index index) :
    ∀ v, v ∈ segment ++ s.components.flatten → ∀ w ∈ graph.next v,
      w ∈ segment ++ s.components.flatten := by
  intro v hv w hw
  rcases List.mem_append.1 hv with hv | hv
  · rcases hframe.followed v hv w hw with ⟨-, hrest⟩ | ⟨i, hi, hle⟩
    · cases hrest
    · rcases (h.met w).1 ⟨i, hi⟩ with hstack | hcomponents
      · exact List.mem_append_left _ (h.mem_segment hframe hstack hi (hle hstack))
      · exact List.mem_append_right _ hcomponents
  · exact List.mem_append_right _ (h.closed v hv w hw)

/-- A segment that is complete has all nodes that are together with one of its nodes. -/
theorem Searching.mem_segment_iff
    (h : Searching graph s (⟨node, []⟩ :: work) (segment :: segments))
    (hframe : FrameSound graph s ⟨node, []⟩ segment index index) {v : Nat} (hv : v ∈ segment)
    (w : Nat) : w ∈ segment ↔ graph.Together v w := by
  constructor
  · intro hw
    exact (hframe.together v hv).symm.trans (hframe.together w hw)
  · intro htogether
    have hmem : w ∈ segment ++ s.components.flatten :=
      htogether.1.mem_of_closed (h.closed_close hframe) (List.mem_append_left _ hv)
    rcases List.mem_append.1 hmem with hw | hw
    · exact hw
    · -- A way back would lead out of the components that were found before.
      have hback : v ∈ s.components.flatten := htogether.2.mem_of_closed h.closed hw
      exact absurd hback (h.apart v (h.mem_stack_iff.2 (Or.inl hv)))

/-- A frame stays sound when the component above it is closed. -/
theorem FrameSound.close {components : List (List Nat)} {rest : List Nat}
    (h : FrameSound graph s frame segment low index) (sub : ∀ v ∈ rest, v ∈ s.stack)
    (keep : ∀ v i, v ∈ s.stack → s.indices.lookup v = some i → i ≤ index → v ∈ rest) :
    FrameSound graph { s with stack := rest, components := components } frame segment low index where
  last := h.last
  together := h.together
  lowlink := h.lowlink
  number := h.number
  le := h.le
  reached := by
    obtain ⟨v, hv, hlow, hreach⟩ := h.reached
    exact ⟨v, keep v low hv hlow h.le, hlow, hreach⟩
  followed := by
    intro v hv w hw
    refine (h.followed v hv w hw).imp_right ?_
    rintro ⟨i, hi, hle⟩
    exact ⟨i, hi, fun hmem => hle (sub w hmem)⟩
  remaining := h.remaining

/-- What holds of the nodes that have been met still holds when a component is closed. -/
theorem Searching.explored_close
    (h : Searching graph s (⟨node, []⟩ :: work) (segment :: segments))
    (hframe : FrameSound graph s ⟨node, []⟩ segment index index) :
    Explored graph
      { s with stack := segments.flatten, components := segment :: s.components } := by
  have hstack : s.stack = segment ++ segments.flatten := h.stack_eq
  have hnodup := h.nodup_stack
  rw [hstack] at hnodup
  have hsegment : ∀ v ∈ segment, v ∉ s.components.flatten :=
    fun v hv => h.apart v (h.mem_stack_iff.2 (Or.inl hv))
  constructor
  · exact h.fresh
  · intro v
    rw [h.met v, h.mem_stack_iff, List.flatten_cons, List.mem_append]
    tauto
  · exact h.inGraph
  · have hordered := h.ordered
    rw [hstack] at hordered
    exact (List.pairwise_append.1 hordered).2.1
  · intro v hv hmem
    rw [List.flatten_cons, List.mem_append] at hmem
    rcases hmem with hmem | hmem
    · exact h.disjoint hmem hv
    · exact h.apart v (h.mem_stack_iff.2 (Or.inr hv)) hmem
  · rw [List.flatten_cons, List.nodup_append']
    exact ⟨(List.nodup_append'.1 hnodup).1, h.nodup, hsegment⟩
  · rw [List.flatten_cons]
    exact h.closed_close hframe
  · -- the new component, and those found before
    intro component hcomponent
    rcases List.mem_cons.1 hcomponent with rfl | hcomponent
    · exact ⟨List.ne_nil_of_mem hframe.node_mem, fun v hv => h.mem_segment_iff hframe hv⟩
    · exact h.components component hcomponent

/-- Leaving a node whose noted number is its own closes a component. -/
theorem Searching.close (h : Searching graph s (⟨node, []⟩ :: work) (segment :: segments))
    (hframe : FrameSound graph s ⟨node, []⟩ segment index index) :
    ∃ next, s.close node = some next ∧ next.indices = s.indices ∧
      Searching graph next work segments := by
  have hstack : s.stack = segment ++ segments.flatten := h.stack_eq
  have hpop : popUntil node s.stack = some (segment, segments.flatten) := by
    have hnodup := h.nodup_stack
    obtain ⟨above, hsegment⟩ := hframe.last
    rw [hstack, hsegment] at hnodup ⊢
    rw [List.append_assoc] at hnodup ⊢
    refine popUntil_append fun hmem => ?_
    exact List.disjoint_of_nodup_append hnodup hmem List.mem_cons_self
  refine ⟨{ s with stack := segments.flatten, components := segment :: s.components }, ?_, rfl,
    h.explored_close hframe, rfl, ?_, (List.pairwise_cons.1 h.way).2⟩
  · rw [Search.close, hpop]
    rfl
  · have hrest := (List.forall₂_cons.1 h.frames).2
    refine ((List.forall₂_and_left _ _).2 ⟨h.node_mem_flatten, hrest⟩).imp ?_
    rintro other below ⟨hbelow, low', index', hother⟩
    refine ⟨low', index', hother.close ?_ ?_⟩
    · exact fun v hv => h.mem_stack_iff.2 (Or.inr hv)
    · -- Nodes of the component have higher numbers than the nodes of the frames below.
      intro v i hv hi hle
      rcases h.mem_stack_iff.1 hv with hv | hv
      · have hlt := h.lt_of_mem hv hbelow hi hother.number
        omega
      · exact hv

/-! ## Merging segments -/

/-- A node whose noted number is not its own is not the last one of the work. -/
theorem Searching.work_ne_nil (h : Searching graph s (⟨node, []⟩ :: work) (segment :: segments))
    (hframe : FrameSound graph s ⟨node, []⟩ segment low index) (lt : low < index) : work ≠ [] := by
  rintro rfl
  have hnil : segments = [] := List.forall₂_nil_left_iff.1 (List.forall₂_cons.1 h.frames).2
  subst hnil
  -- The node with the noted number would be on the stack below the segment.
  obtain ⟨v, hv, hlow, -⟩ := hframe.reached
  rcases h.mem_stack_iff.1 hv with hv | hv
  · have hle := h.le_of_mem hframe hv hlow
    omega
  · cases hv

/-- A frame takes over the segment of the node that was met from it. -/
theorem FrameSound.merge {parent : Frame} {low' index' : Nat} {below : List Nat}
    (hframe : FrameSound graph s ⟨node, []⟩ segment low index)
    (hparent : FrameSound graph s parent below low' index') (hle : low' ≤ low)
    (htogether : graph.Together parent.node node) :
    FrameSound graph s parent (segment ++ below) low' index' where
  last := by
    obtain ⟨above, hbelow⟩ := hparent.last
    exact ⟨segment ++ above, by rw [hbelow, List.append_assoc]⟩
  together := by
    intro v hv
    rcases List.mem_append.1 hv with hv | hv
    · exact htogether.trans (hframe.together v hv)
    · exact hparent.together v hv
  lowlink := hparent.lowlink
  number := hparent.number
  le := hparent.le
  reached := hparent.reached
  followed := by
    intro v hv w hw
    rcases List.mem_append.1 hv with hv | hv
    · rcases hframe.followed v hv w hw with ⟨-, hrest⟩ | ⟨i, hi, hlow⟩
      · cases hrest
      · exact Or.inr ⟨i, hi, fun hmem => Nat.le_trans hle (hlow hmem)⟩
    · exact hparent.followed v hv w hw
  remaining := hparent.remaining

/-- Leaving a node whose noted number is not its own merges its segment with the one below. -/
theorem Searching.merge {parent : Frame} {low' index' : Nat} {below : List Nat}
    (h : Searching graph s (⟨node, []⟩ :: parent :: work) (segment :: below :: segments))
    (hframe : FrameSound graph s ⟨node, []⟩ segment low index) (lt : low < index)
    (hparent : FrameSound graph s parent below low' index') (hle : low' ≤ low) :
    Searching graph s (parent :: work) ((segment ++ below) :: segments) where
  toExplored := h.toExplored
  stack_eq := by
    rw [h.stack_eq]
    simp only [List.flatten_cons, List.append_assoc]
  frames := by
    have hrest := (List.forall₂_cons.1 h.frames).2
    obtain ⟨hdown, hway⟩ := List.pairwise_cons.1 h.way
    -- The noted number is that of a node below, from which a way leads back to the parent.
    obtain ⟨v, hv, hlow, hreach⟩ := hframe.reached
    have hbelow : v ∈ (below :: segments).flatten := by
      rcases h.mem_stack_iff.1 hv with hv | hv
      · have hge := h.le_of_mem hframe hv hlow
        omega
      · exact hv
    have hback : graph.Reach node parent.node :=
      hreach.trans (reach_of_mem_flatten hrest hway hbelow)
    have htogether : graph.Together parent.node node := ⟨hdown parent List.mem_cons_self, hback⟩
    exact List.Forall₂.cons ⟨low', index', hframe.merge hparent hle htogether⟩
      (List.forall₂_cons.1 hrest).2
  way := (List.pairwise_cons.1 h.way).2

/-! ## Leaving a node -/

/-- A node of which all references have been followed is settled once its number has been noted for
the node before it. -/
theorem Searching.settle (h : Searching graph s (⟨node, []⟩ :: work) (segment :: segments))
    (hframe : FrameSound graph s ⟨node, []⟩ segment low index)
    (noted : ∀ parent ∈ work.head?,
      ∃ low', s.lowlinks.lookup parent.node = some low' ∧ low' ≤ low) :
    ∃ next segments', s.settle node = some next ∧ next.indices = s.indices ∧
      Searching graph next work segments' := by
  rw [Search.settle, hframe.lowlink, hframe.number]
  rcases Nat.lt_or_eq_of_le hframe.le with hlt | rfl
  · have hsame : (do
        let low ← some low
        let index ← some index
        if low = index then s.close node else some s) = some s := if_neg (Nat.ne_of_lt hlt)
    cases work with
    | nil => exact absurd rfl (h.work_ne_nil hframe hlt)
    | cons parent work =>
      obtain ⟨below, segments, ⟨low', index', hparent⟩, -, rfl⟩ :=
        List.forall₂_cons_left_iff.1 (List.forall₂_cons.1 h.frames).2
      obtain ⟨noted', hnoted, hle⟩ := noted parent rfl
      have hlow : noted' = low' := Option.some.inj (hnoted.symm.trans hparent.lowlink)
      subst hlow
      exact ⟨s, (segment ++ below) :: segments, hsame, rfl, h.merge hframe hlt hparent hle⟩
  · obtain ⟨next, hclose, hindices, hnext⟩ := h.close hframe
    exact ⟨next, segments, (if_pos rfl).trans hclose, hindices, hnext⟩

/-- Leaving a node of which all references have been followed succeeds. -/
theorem Searching.leave (h : Searching graph s (⟨node, []⟩ :: work) (segment :: segments)) :
    ∃ next segments', s.leave node work = some next ∧ next.indices = s.indices ∧
      Searching graph next work segments' := by
  obtain ⟨low, index, hframe⟩ := h.first
  rw [Search.leave, hframe.lowlink]
  cases work with
  | nil =>
    obtain ⟨next, segments', hsettle, hindices, hnext⟩ := h.settle hframe (by simp)
    exact ⟨next, segments', hsettle, hindices, hnext⟩
  | cons parent work =>
    obtain ⟨v, hv, hnumber, hreach⟩ := hframe.reached
    have hdown : graph.Reach parent.node node :=
      (List.pairwise_cons.1 h.way).1 parent List.mem_cons_self
    obtain ⟨lowered, low', hlower, hindices, hstack, hlowlinks, hlowered⟩ :=
      h.lower (List.mem_cons_of_mem _ List.mem_cons_self) hv hnumber (hdown.trans hreach)
    have hne : node ≠ parent.node := fun heq => h.node_ne parent List.mem_cons_self heq.symm
    have hkept : lowered.lowlinks.lookup node = s.lowlinks.lookup node := by
      rw [hlowlinks, lookup_cons_of_ne hne]
    obtain ⟨next, segments', hsettle, hsame, hnext⟩ :=
      hlowered.settle (hframe.congr hindices hstack hkept) (by
        intro other hother
        obtain rfl := Option.some.inj hother
        refine ⟨min low' low, ?_, Nat.min_le_right low' low⟩
        rw [hlowlinks, List.lookup_cons_self])
    refine ⟨next, segments', ?_, hsame.trans hindices, hnext⟩
    rw [Option.bind_eq_bind, Option.bind_some, lowerFirst, hlower]
    exact hsettle

end Search

/-! ## Searching to the end -/

open Search

variable {graph : Graph}

/-- Work on a node has its segment. -/
theorem exists_segment {s : Search} {frame : Frame} {work : List Frame}
    {segments : List (List Nat)} (h : Searching graph s (frame :: work) segments) :
    ∃ segment rest, segments = segment :: rest := by
  obtain ⟨segment, rest, -, -, rfl⟩ := List.forall₂_cons_left_iff.1 h.frames
  exact ⟨segment, rest, rfl⟩

/-- A search comes to its end, and nodes that have been met stay so. -/
theorem visit_spec (closed : graph.Closed) (s : Search) (work : List Frame)
    (segments : List (List Nat)) (h : Searching graph s work segments) :
    ∃ last, visit graph s work = some last ∧ Searching graph last [] [] ∧
      ∀ v, (s.indices.lookup v).isSome → (last.indices.lookup v).isSome := by
  -- The induction follows the search; a case in which it fails contradicts what the step promises.
  fun_induction visit graph s work generalizing segments with
  | case1 s =>
    obtain rfl := List.forall₂_nil_left_iff.1 h.frames
    exact ⟨s, rfl, h, fun v hv => hv⟩
  | case2 s node succ rest work new found =>
    -- References lead to nodes of the graph.
    obtain ⟨segment, segments, rfl⟩ := exists_segment h
    obtain ⟨_, _, hframe⟩ := h.first
    have hlt := closed node succ (hframe.remaining succ List.mem_cons_self)
    rw [List.getElem?_eq_none_iff] at found
    omega
  | case3 s node succ rest work new refs found lt ih =>
    obtain ⟨segment, segments, rfl⟩ := exists_segment h
    have hrefs : graph.next succ = refs := by
      rw [Graph.next, found]
      rfl
    have hentered := h.descend closed new
    rw [hrefs] at hentered
    obtain ⟨last, hvisit, hlast, hmet⟩ := ih _ hentered
    refine ⟨last, hvisit, hlast, fun v hv => hmet v ?_⟩
    obtain ⟨i, hi⟩ := Option.isSome_iff_exists.1 hv
    rw [lookup_enter_of_some new hi]
    rfl
  | case4 s node succ rest work index met on failed =>
    obtain ⟨segment, segments, rfl⟩ := exists_segment h
    obtain ⟨next, hlower, -⟩ := h.follow met (List.contains_iff_mem.1 on)
    rw [failed] at hlower
    cases hlower
  | case5 s node succ rest work index met on next lowered same ih =>
    obtain ⟨segment, segments, rfl⟩ := exists_segment h
    obtain ⟨next', hlower, -, hnext⟩ := h.follow met (List.contains_iff_mem.1 on)
    obtain rfl : next = next' := Option.some.inj (lowered.symm.trans hlower)
    obtain ⟨last, hvisit, hlast, hmet⟩ := ih _ hnext
    rw [same] at hmet
    exact ⟨last, hvisit, hlast, hmet⟩
  | case6 s node succ rest work index met off ih =>
    obtain ⟨segment, segments, rfl⟩ := exists_segment h
    exact ih _ (h.skip met (mt List.contains_iff_mem.2 off))
  | case7 s node work failed =>
    obtain ⟨segment, segments, rfl⟩ := exists_segment h
    obtain ⟨next, segments', hleave, -⟩ := h.leave
    rw [failed] at hleave
    cases hleave
  | case8 s node work next left same ih =>
    obtain ⟨segment, segments, rfl⟩ := exists_segment h
    obtain ⟨next', segments', hleave, -, hnext⟩ := h.leave
    obtain rfl : next = next' := Option.some.inj (left.symm.trans hleave)
    obtain ⟨last, hvisit, hlast, hmet⟩ := ih _ hnext
    rw [same] at hmet
    exact ⟨last, hvisit, hlast, hmet⟩

/-- Searching from a node meets it. -/
theorem searchFrom_spec (closed : graph.Closed) {s : Search} (h : Searching graph s [] [])
    {root : Nat} (hroot : root < graph.length) :
    ∃ last, searchFrom graph s root = some last ∧ Searching graph last [] [] ∧
      (last.indices.lookup root).isSome ∧
      ∀ v, (s.indices.lookup v).isSome → (last.indices.lookup v).isSome := by
  rw [searchFrom]
  by_cases hmet : (s.indices.lookup root).isSome
  · rw [if_pos hmet]
    exact ⟨s, rfl, h, hmet, fun v hv => hv⟩
  · rw [if_neg hmet]
    have new : s.indices.lookup root = none := Option.not_isSome_iff_eq_none.1 hmet
    have hentered := h.enter new hroot (by simp)
    obtain ⟨last, hvisit, hlast, hkept⟩ := visit_spec closed _ _ _ hentered
    refine ⟨last, hvisit, hlast, hkept root ?_, fun v hv => hkept v ?_⟩
    · rw [Search.enter, List.lookup_cons_self]
      rfl
    · obtain ⟨i, hi⟩ := Option.isSome_iff_exists.1 hv
      rw [lookup_enter_of_some new hi]
      rfl

/-- Searching from some nodes meets all of them. -/
theorem foldlM_searchFrom_spec (closed : graph.Closed) (roots : List Nat)
    (hroots : ∀ root ∈ roots, root < graph.length) (s : Search) (h : Searching graph s [] []) :
    ∃ last, roots.foldlM (searchFrom graph) s = some last ∧ Searching graph last [] [] ∧
      (∀ root ∈ roots, (last.indices.lookup root).isSome) ∧
      ∀ v, (s.indices.lookup v).isSome → (last.indices.lookup v).isSome := by
  induction roots generalizing s with
  | nil => exact ⟨s, rfl, h, by simp, fun v hv => hv⟩
  | cons root roots ih =>
    obtain ⟨next, hfrom, hnext, hroot, hkept⟩ :=
      searchFrom_spec closed h (hroots root List.mem_cons_self)
    obtain ⟨last, hfold, hlast, hall, hkept'⟩ :=
      ih (fun other hother => hroots other (List.mem_cons_of_mem _ hother)) next hnext
    refine ⟨last, ?_, hlast, ?_, fun v hv => hkept' v (hkept v hv)⟩
    · rw [List.foldlM_cons, hfrom]
      exact hfold
    · intro other hother
      rcases List.mem_cons.1 hother with rfl | hother
      · exact hkept' other hroot
      · exact hall other hother

/-! ## The components of a graph -/

/-- Some sets of nodes are the strongly connected components of a graph. -/
structure AreComponents (graph : Graph) (components : List (List Nat)) : Prop where
  /-- Every node is in one of them. -/
  covers : ∀ v, v ∈ components.flatten ↔ v < graph.length
  /-- No node is in two of them or twice in one. -/
  nodup : components.flatten.Nodup
  /-- Each has a node, and with a node those that are together with it and no others. -/
  together : ∀ component ∈ components,
    component ≠ [] ∧ ∀ v ∈ component, ∀ w, w ∈ component ↔ graph.Together v w

/-- Nothing has been met before the search. -/
theorem searching_start (graph : Graph) : Searching graph {} [] [] where
  fresh := by simp
  met := by simp
  inGraph := by simp
  ordered := List.Pairwise.nil
  apart := by simp
  nodup := List.nodup_nil
  closed := by simp
  components := by simp
  stack_eq := rfl
  frames := List.Forall₂.nil
  way := List.Pairwise.nil

/-- **The search for components.**  It succeeds in every graph and finds the strongly connected
components. -/
theorem exists_components (closed : graph.Closed) :
    ∃ found, components graph = some found ∧ AreComponents graph found := by
  obtain ⟨last, hfold, hlast, hall, -⟩ := foldlM_searchFrom_spec closed (List.range graph.length)
    (fun root hroot => List.mem_range.1 hroot) {} (searching_start graph)
  refine ⟨last.components, ?_, ?_, hlast.nodup, hlast.components⟩
  · rw [components, hfold]
    rfl
  · have hstack : last.stack = [] := hlast.stack_eq
    intro v
    have hmet := hlast.met v
    rw [hstack] at hmet
    constructor
    · intro hv
      obtain ⟨i, hi⟩ := hmet.2 (Or.inr hv)
      exact hlast.inGraph v i hi
    · intro hv
      have hsome := hall v (List.mem_range.2 hv)
      rcases hmet.1 (Option.isSome_iff_exists.1 hsome) with hnil | hv
      · cases hnil
      · exact hv

end SchemaCodecs
