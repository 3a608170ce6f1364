/-
# Values of texts repeat no keys

No mapping of a value that is read from a text repeats a key, and no set a member, since no content of
a node does.

* `assemble_induction` : what holds of the values that are assembled from contents;
* `distinct_of_readDocument` : the document in a file has no repetitions.
-/
import SchemaCodecs.Bundle.Shelf
import SchemaCodecs.Proofs.Yaml.Meeting

namespace SchemaCodecs

namespace Yaml

/-! ## Values of nodes -/

/-- What is computed for every item of a list belongs to the items one by one. -/
theorem forall₂_of_mapM {α β : Type} {f : α → Option β} {items : List α} {results : List β}
    (h : items.mapM f = some results) : List.Forall₂ (fun a b => f a = some b) items results := by
  induction items generalizing results with
  | nil =>
    cases h
    exact .nil
  | cons item rest ih =>
    rw [List.mapM_cons] at h
    obtain ⟨b, hb, h⟩ := Option.bind_eq_some_iff.1 h
    obtain ⟨bs, hbs, h⟩ := Option.bind_eq_some_iff.1 h
    cases h
    exact .cons hb (ih hbs)

/-- What is computed for every item of a list has a property if it has it for each item. -/
theorem forall_mem_of_mapM {α β : Type} {f : α → Option β} {P : β → Prop} {items : List α}
    {results : List β} (h : items.mapM f = some results) (hP : ∀ a b, f a = some b → P b) :
    ∀ b ∈ results, P b := by
  have hforall := forall₂_of_mapM h
  clear h
  induction hforall with
  | nil => simp
  | cons hhead _ ih => exact List.forall_mem_cons.2 ⟨hP _ _ hhead, ih⟩

/-- A fact holds of every value that is assembled if it passes from the parts of such a value to the
value.  The mappings among them are those that are assembled up to the depth. -/
theorem assemble_induction {file : Text} {contents : Array (Option Content)} {P : Value → Prop}
    {depth : Nat} (scalar : ∀ s, P (.scalar s))
    (sequence : ∀ parts, (∀ part ∈ parts, P part) → P (.sequence parts))
    (mapping : ∀ below ≤ depth, ∀ (around : List Nat) (number : Nat) entries parts,
      contents[number]?.join = some (.entries entries) →
        assemble file contents below around number = some (.mapping (some number) parts) →
          parts.map Prod.fst = entries.map Prod.fst → (∀ part ∈ parts, P part.2) →
            P (.mapping (some number) parts))
    (set : ∀ (number : Nat) members, contents[number]?.join = some (.members members) →
      P (.set members))
    (pair : ∀ first second, P first → P second → P (.pair first second))
    {around : List Nat} {number : Nat} {v : Value}
    (h : assemble file contents depth around number = some v) : P v := by
  induction depth generalizing around number v with
  | zero => cases h
  | succ depth ih =>
    have hparts : ∀ inside part w, assemble file contents depth inside part = some w → P w :=
      fun inside part w => ih fun below hle => mapping below (Nat.le_succ_of_le hle)
    have hwhole := h
    rw [assemble] at h
    split at h
    · cases h
      exact scalar _
    split at h
    · cases h
      exact scalar _
    · obtain ⟨parts, hitems, h⟩ := Option.bind_eq_some_iff.1 h
      cases h
      exact sequence parts (forall_mem_of_mapM hitems (hparts _))
    · next entries hcontent =>
      obtain ⟨parts, hentries, h⟩ := Option.bind_eq_some_iff.1 h
      cases h
      refine mapping _ (Nat.le_refl _) around number entries parts hcontent hwhole ?_
        (forall_mem_of_mapM hentries fun entry part hpart => ?_)
      · -- Only the values are assembled, so the keys stay.
        rw [← List.forall₂_eq_eq_eq, List.forall₂_map_left_iff, List.forall₂_map_right_iff]
        refine ((forall₂_of_mapM hentries).imp fun entry part hpart => ?_).flip
        obtain ⟨_, -, rfl⟩ := Option.map_eq_some_iff.1 hpart
        rfl
      · obtain ⟨w, hw, rfl⟩ := Option.map_eq_some_iff.1 hpart
        exact hparts _ entry.2 w hw
    · next members hcontent =>
      cases h
      exact set number members hcontent
    · obtain ⟨parts, hpairs, h⟩ := Option.bind_eq_some_iff.1 h
      cases h
      refine sequence parts (forall_mem_of_mapM hpairs fun both part hpart => ?_)
      obtain ⟨first, hfirst, hpart⟩ := Option.bind_eq_some_iff.1 hpart
      obtain ⟨second, hsecond, hpart⟩ := Option.bind_eq_some_iff.1 hpart
      cases hpart
      exact pair first second (hparts _ _ _ hfirst) (hparts _ _ _ hsecond)
    · cases h

/-- Sound contents make up values without repetitions. -/
theorem distinct_of_assemble {file : Text} {contents : Array (Option Content)}
    (sound : ∀ (number : Nat) (content : Content), contents[number]? = some (some content) →
      content.Distinct) {depth number : Nat} {around : List Nat} {v : Value}
    (h : assemble file contents depth around number = some v) : v.Distinct := by
  refine assemble_induction .scalar (fun _ => .sequence) ?_ ?_ (fun _ _ => .pair) h
  · intro _ _ _ number entries parts hcontent _ hkeys hparts
    have hapart : Apart (parts.map Prod.fst) := by
      rw [hkeys]
      exact sound number _ (Option.join_eq_some_iff.1 hcontent)
    exact .mapping (List.pairwise_map.1 hapart) hparts
  · intro number members hcontent
    exact .set (sound number _ (Option.join_eq_some_iff.1 hcontent))

@[simp] theorem keepLabelsAll_eq_map (kept : List Nat) (items : List Value) :
    keepLabelsAll kept items = items.map (keepLabels kept) := by
  induction items with
  | nil => rfl
  | cons item rest ih => rw [keepLabelsAll, ih, List.map_cons]

@[simp] theorem keepLabelsEntries_eq_map (kept : List Nat) (entries : Entries) :
    keepLabelsEntries kept entries
      = entries.map fun entry => (entry.1, keepLabels kept entry.2) := by
  induction entries with
  | nil => rfl
  | cons entry rest ih => rw [keepLabelsEntries, ih, List.map_cons]

/-- Leaving out labels repeats nothing. -/
theorem distinct_keepLabels (kept : List Nat) {v : Value} (h : v.Distinct) :
    (keepLabels kept v).Distinct := by
  induction h with
  | scalar s =>
    rw [keepLabels]
    exact .scalar s
  | sequence _ ih =>
    rw [keepLabels, keepLabelsAll_eq_map]
    exact .sequence (List.forall_mem_map.2 ih)
  | mapping apart _ ih =>
    rw [keepLabels, keepLabelsEntries_eq_map]
    exact .mapping (List.pairwise_map.2 apart) (List.forall_mem_map.2 ih)
  | set apart =>
    rw [keepLabels]
    exact .set apart
  | pair _ _ ihleft ihright =>
    rw [keepLabels]
    exact .pair ihleft ihright

/-- Leaving out the labels of mappings at one place repeats nothing. -/
theorem distinct_sharedLabels {v : Value} (h : v.Distinct) : (sharedLabels v).Distinct := by
  unfold sharedLabels
  split
  · exact distinct_keepLabels _ h
  · exact h

/-- The state in which the nodes of a document are met: no node has a content. -/
def BuildState.start (tree : NodeTree) : BuildState where
  nodes := tree.nodes
  contents := Array.replicate tree.nodes.size none

/-- What is read from a text is the absent value, or it is assembled from the contents of nodes that
have been met, and only repeated mappings keep their labels. -/
theorem exists_assembled_of_read {file : Text} {cs : List Point} {v : Value}
    (h : read file cs = .ok v) : v = .null ∨ ∃ (tree : NodeTree) (state : BuildState) (w : Value),
      (Building.meetAll file tree.root).run (.start tree) = .ok ((), state) ∧
        assemble file state.contents (tree.nodes.size + 1) [] tree.root = some w ∧
          v = sharedLabels w := by
  simp only [read] at h
  split at h
  · obtain ⟨nodes, -, h⟩ := (bind_eq_ok_iff _ _ _).1 h
    cases nodes with
    | none =>
      cases h
      exact Or.inl rfl
    | some tree =>
      obtain ⟨w, hvalue, h⟩ := (bind_eq_ok_iff _ _ _).1 h
      cases h
      unfold NodeTree.value at hvalue
      obtain ⟨⟨_, state⟩, hmeet, hvalue⟩ := (bind_eq_ok_iff _ _ _).1 hvalue
      cases hassembled : assemble file state.contents (tree.nodes.size + 1) [] tree.root with
      | none =>
        simp only [hassembled] at hvalue
        cases hvalue
      | some found =>
        simp only [hassembled] at hvalue
        cases hvalue
        exact Or.inr ⟨tree, state, w, hmeet, hassembled, rfl⟩
  · cases h

theorem Building.sound_start (tree : NodeTree) : Building.Sound tree.nodes (BuildState.start tree) := by
  refine ⟨fun number content hcontent => ?_, .refl _⟩
  rw [BuildState.start, Array.getElem?_replicate] at hcontent
  split at hcontent <;> cases hcontent

/-- If nodes have no value although the text is not malformed, one of them has none. -/
theorem NodeTree.lacksValue_of_value {file : Text} {tree : NodeTree} {fault : Fault}
    (h : tree.value file = .error (.content fault)) : tree.nodes.LacksValue fault := by
  unfold NodeTree.value at h
  rcases (bind_eq_error_iff _ _ _).1 h with hmeet | ⟨⟨_, state⟩, -, hvalue⟩
  · have hkeeps := Building.keeps_meetAll file tree.root _ (Building.sound_start tree)
    rw [BuildState.start, hmeet] at hkeeps
    exact hkeeps fault rfl
  · exact absurd hvalue (required_ne_content _ _)

/-- The value of a text has no repetitions. -/
theorem distinct_of_read {file : Text} {cs : List Point} {v : Value}
    (h : read file cs = .ok v) : v.Distinct := by
  rcases exists_assembled_of_read h with rfl | ⟨tree, state, w, hmeet, hassembled, rfl⟩
  · exact .scalar _
  · have hkeeps := Building.keeps_meetAll file tree.root _ (Building.sound_start tree)
    rw [hmeet] at hkeeps
    exact distinct_sharedLabels (distinct_of_assemble hkeeps.2.distinct hassembled)

end Yaml

/-- The document in a file is the value of a text. -/
theorem exists_read_of_readDocument {tree : FileTree} {file : Path} {document : Value}
    (h : readDocument tree file = .ok document) :
    ∃ name cs, Yaml.read name cs = .ok document := by
  unfold readDocument at h
  split at h
  · cases h
  · unfold parseDocument at h
    split at h
    · next hread =>
      cases h
      unfold readText at hread
      split at hread
      · cases hread
      · exact ⟨_, _, hread⟩
    · cases h
    · cases h

theorem distinct_of_readDocument {tree : FileTree} {file : Path} {document : Value}
    (h : readDocument tree file = .ok document) : document.Distinct := by
  obtain ⟨name, cs, hread⟩ := exists_read_of_readDocument h
  exact Yaml.distinct_of_read hread

end SchemaCodecs
