/-
# Meeting nodes

What holds of the contents of nodes while the nodes are met, and how meeting them fails.  No mapping
repeats a key and no set a member.  Meeting only fails if the text is malformed or one of its nodes has
no value.

* `Content.Distinct` : a content without repetitions;
* `Building.Keeps` : what steps of building keep, and how they fail;
* `Building.keeps_meetAll` : this holds of meeting all nodes.
-/
import SchemaCodecs.Proofs.Steps
import SchemaCodecs.Proofs.Value.Apart
import SchemaCodecs.Proofs.Yaml.NodeFaults

namespace SchemaCodecs.Yaml

/-! ## Contents of nodes -/

/-- A content in which no mapping repeats a key and no set a member. -/
def Content.Distinct : Content → Prop
  | .entries keyed => Apart (keyed.map (·.1))
  | .members keys => Apart keys
  | _ => True

namespace Building

variable {table : NodeTable} {α : Type} {P : α → Prop}

/-- All contents that are known have no repetitions, and the nodes have come from those of a table. -/
structure Sound (table : NodeTable) (state : BuildState) : Prop where
  /-- The contents have no repetitions. -/
  distinct : ∀ (number : Nat) (content : Content), state.contents[number]? = some (some content) →
    content.Distinct
  /-- Nodes were only changed by merging. -/
  evolves : table.Evolves state.nodes

/-- A step that succeeds keeps a state sound, and its result has a property.  If it fails and the text
is not malformed, a node has no value. -/
abbrev Keeps (table : NodeTable) (step : Building α) (P : α → Prop) : Prop :=
  Maintains (Sound table) (fun fault => ∀ cause, fault = .content cause → table.LacksValue cause) step P

theorem keeps_refuse : Keeps table (refuse : Building α) P :=
  .throw nofun

/-- Reading something leaves the state as it is. -/
theorem keeps_lift {reading : Reading α} (hP : ∀ a, reading = .ok a → P a)
    (hfault : ∀ cause, reading = .error (.content cause) → table.LacksValue cause) :
    Keeps table (liftM reading) P :=
  .lift hP fun _ hread cause heq => hfault cause (heq ▸ hread)

/-! ## Steps of building -/

/-- Keeping a content without repetitions keeps a state sound. -/
theorem keeps_keep (number : Nat) {content : Content} (h : content.Distinct) :
    Keeps table (keep number content) fun _ => True := by
  refine fun state hsound => ⟨trivial, fun other found hfound => ?_, hsound.evolves⟩
  rw [Array.getElem?_setIfInBounds] at hfound
  split at hfound
  · split at hfound
    · cases hfound
      exact h
    · cases hfound
  · exact hsound.distinct other found hfound

theorem keeps_node (number : Nat) : Keeps table (node number) fun _ => True :=
  .bind .get fun _ _ => .pure trivial

theorem run_mergeAt (bound number : Nat) (state : BuildState) :
    (mergeAt bound number).run state
      = ((mergeKeys bound number []).run state.nodes).map fun merged =>
          ((), { state with nodes := merged.2 }) := by
  show (mergeAt bound number) state = ((mergeKeys bound number []) state.nodes).map _
  unfold mergeAt
  cases hrun : mergeKeys bound number [] state.nodes <;> simp [StateT.run, hrun] <;> rfl

/-- Replacing merge keys changes nodes only. -/
theorem keeps_mergeAt (bound number : Nat) : Keeps table (mergeAt bound number) fun _ => True := by
  intro state hsound
  have hmerge := (Merging.keeps_merging bound).1 state.nodes number [] (by simp [NodeTable.Plain])
  unfold Merging.Keeps at hmerge
  rw [run_mergeAt]
  cases hrun : (mergeKeys bound number []).run state.nodes with
  | error fault =>
    rw [hrun] at hmerge
    subst hmerge
    rintro cause ⟨⟩
  | ok merged =>
    rw [hrun] at hmerge
    exact ⟨trivial, hsound.distinct, hsound.evolves.trans hmerge.1⟩

/-- A node is read as a scalar unless it has no value. -/
theorem keeps_scalarAt (file : Text) (number : Nat) :
    Keeps table (scalarAt file number) fun _ => True := by
  unfold scalarAt
  refine .bind .get fun state hsound => ?_
  refine .bind (P := state.nodes.StandsFor number)
    (keeps_lift (fun _ => standsFor_of_standingText) fun cause hcause =>
      (lacksValue_of_standingText hcause).of_evolves hsound.evolves) fun text hstands => ?_
  split
  · next entries hnode =>
    refine .throw fun cause heq => ?_
    cases heq
    exact (NodeTable.LacksValue.time hnode hstands).of_evolves hsound.evolves
  · refine keeps_lift (fun _ _ => trivial) fun cause hcause => ?_
    exact (NodeTable.LacksValue.scalar hstands
      ((scalarValue_eq_content_iff _ _ _ _).1 hcause)).of_evolves hsound.evolves

/-- What a node stands for has no repetitions. -/
theorem keeps_meet (file : Text) (number : Nat) :
    Keeps table (meet file number) Content.Distinct := by
  unfold meet
  refine .bind .get fun state hsound => ?_
  split
  · next content hcontent =>
    exact .pure (hsound.distinct number content (Option.join_eq_some_iff.1 hcontent))
  · refine .bind (keeps_node number) fun node _ => ?_
    split
    · refine .bind (keeps_keep number trivial) fun _ _ => ?_
      exact .bind (.modify fun _ h => ⟨h.distinct, h.evolves⟩) fun _ _ => .pure trivial
    · refine .bind (keeps_scalarAt file number) fun s _ => ?_
      exact .bind (keeps_keep number trivial) fun _ _ => .pure trivial

/-- Entries are met one after the other. -/
theorem keeps_meetEntries (file : Text) (entries : List (Nat × Nat)) :
    Keeps table (meetEntries file entries) fun _ => True := by
  unfold meetEntries
  refine (Maintains.mapM (Q := fun _ => True) fun entry _ => ?_).weaken fun _ _ => trivial
  refine .bind (P := fun _ => True) ?_ fun key _ => ?_
  · refine .bind (keeps_meet file entry.1) fun content _ => ?_
    split
    · exact .pure trivial
    · exact keeps_refuse
  · refine .bind (.discard (keeps_meet file entry.2)) fun _ _ => ?_
    exact .pure trivial

/-- The parts of a pair are met one after the other. -/
theorem keeps_meetPair (file : Text) (item : Nat) :
    Keeps table (meetPair file item) fun _ => True := by
  unfold meetPair
  refine .bind (keeps_node item) fun node _ => ?_
  split
  · next first second =>
    refine .bind (.discard (keeps_meet file first)) fun _ _ => ?_
    refine .bind (.discard (keeps_meet file second)) fun _ _ => ?_
    exact .pure trivial
  · exact keeps_refuse

/-- The content of a collection has no repetitions. -/
theorem keeps_collection (file : Text) (bound number : Nat) :
    Keeps table (collection file bound number) Content.Distinct := by
  unfold collection
  refine .bind (keeps_node number) fun node _ => ?_
  split
  · next items =>
    refine .bind (.forM fun item _ => .discard (keeps_meet file item)) fun _ _ => ?_
    exact .pure trivial
  · next items =>
    refine .bind (.mapM fun item _ => keeps_meetPair file item) fun _ _ => ?_
    exact .pure trivial
  · split
    · refine .bind (keeps_mergeAt bound number) fun _ _ => ?_
      refine .bind (keeps_node number) fun merged _ => ?_
      refine .bind (keeps_meetEntries file merged.entries) fun entries _ => ?_
      split
      · exact .pure (Scalar.apart_setOf _)
      · exact .pure (Entries.apart_ofPairs _)
    · exact keeps_refuse
  · exact keeps_refuse

/-- Completing collections keeps a state sound. -/
theorem keeps_complete (file : Text) (bound rounds : Nat) (numbers : List Nat) :
    Keeps table (complete file bound rounds numbers) fun _ => True := by
  induction rounds generalizing numbers with
  | zero =>
    cases numbers with
    | nil => exact .pure trivial
    | cons _ _ => exact keeps_refuse
  | succ rounds ih =>
    cases numbers with
    | nil => exact .pure trivial
    | cons first rest =>
      rw [complete.eq_def]
      refine .bind (.forM fun number _ => ?_) fun _ _ => ?_
      · exact .bind (keeps_collection file bound number) fun content hcontent =>
          keeps_keep number hcontent
      · refine .bind .get fun state _ => ?_
        refine .bind (.modify fun _ h => ⟨h.distinct, h.evolves⟩) fun _ _ => ?_
        exact ih state.waiting.reverse

/-- Meeting all nodes keeps a state sound. -/
theorem keeps_meetAll (file : Text) (root : Nat) : Keeps table (meetAll file root) fun _ => True := by
  unfold meetAll
  refine .bind (.discard (keeps_meet file root)) fun _ _ => ?_
  refine .bind .get fun state hstate => ?_
  refine .bind (P := fun _ => True) ?_ fun _ _ => keeps_complete _ _ _ _
  exact fun _ _ => ⟨trivial, hstate.distinct, hstate.evolves⟩

end Building

end SchemaCodecs.Yaml
