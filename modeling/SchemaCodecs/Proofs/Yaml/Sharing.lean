/-
# Repeated mappings of a document

The label of a mapping tells which mapping it is: wherever a label stands in a document that does not
contain itself, it stands for the same entries.  The label is the number of a node, and the entries are
assembled from this node, however deep in the document it stands.

* `Value.Shares` : labels stand for entries;
* `exists_shares_of_readDocument` : they do so in every document that is read and does not contain
  itself.
-/
import SchemaCodecs.Proofs.Bundle.Source
import SchemaCodecs.Proofs.Yaml.Distinct

namespace SchemaCodecs

/-! ## Labels and entries -/

namespace Value

/-- Every mapping of a value that carries a label has the entries that the label stands for. -/
inductive Shares (held : Nat → Entries) : Value → Prop where
  /-- A scalar. -/
  | scalar (s : Scalar) : Shares held (.scalar s)
  /-- A sequence of such values. -/
  | sequence {items : List Value} (parts : ∀ v ∈ items, Shares held v) :
    Shares held (.sequence items)
  /-- A mapping to such values. -/
  | mapping {label : Option Nat} {entries : Entries}
      (own : ∀ number, label = some number → entries = held number)
      (parts : ∀ entry ∈ entries, Shares held entry.2) : Shares held (.mapping label entries)
  /-- A set. -/
  | set (members : List Scalar) : Shares held (.set members)
  /-- A pair of such values. -/
  | pair {first second : Value} (left : Shares held first) (right : Shares held second) :
    Shares held (.pair first second)

/-- In a part of a value that does not contain itself labels stand for the same as in the value. -/
theorem Shares.part {held : Nat → Entries} {document part : Value} {pointer : Text}
    (h : document.partAt? pointer = some part) (finite : document.isFinite = true)
    (hdocument : document.Shares held) : part.Shares held := by
  refine (of_partAt? (P := fun v => v.isFinite = true ∧ v.Shares held) ?_ ?_ ?_ h
    ⟨finite, hdocument⟩).2
  · rintro items ⟨hfinite, hitems⟩ v hv
    cases hitems with
    | sequence parts => exact ⟨(isFinite_sequence_iff _).1 hfinite v hv, parts v hv⟩
  · rintro label entries ⟨hfinite, hentries⟩ entry hentry
    cases hentries with
    | mapping _ parts => exact ⟨(isFinite_mapping_iff _ _).1 hfinite entry hentry, parts entry hentry⟩
  · rintro whole v - - hv
    rwa [fill_of_isFinite whole 0 hv.1]

end Value

namespace Yaml

/-! ## Assembling -/

/-- What is computed for all items of a list is computed by every function that computes these
results. -/
theorem mapM_of_le {α β : Type} {f g : α → Option β} {items : List α} {results : List β}
    (hfg : ∀ a, ∀ b ∈ results, f a = some b → g a = some b) (h : items.mapM f = some results) :
    items.mapM g = some results := by
  induction items generalizing results with
  | nil => exact h
  | cons item rest ih =>
    rw [List.mapM_cons] at h ⊢
    obtain ⟨b, hb, h⟩ := Option.bind_eq_some_iff.1 h
    obtain ⟨bs, hbs, h⟩ := Option.bind_eq_some_iff.1 h
    cases h
    obtain ⟨hhead, htail⟩ : (∀ a, f a = some b → g a = some b) ∧
        ∀ a, ∀ b ∈ bs, f a = some b → g a = some b :=
      ⟨fun a => hfg a b List.mem_cons_self, fun a b hb => hfg a b (List.mem_cons_of_mem _ hb)⟩
    rw [hhead item hb, ih htail hbs]
    rfl

/-- A value without marks that has been assembled is not changed by a greater bound on the depth, and
not by fewer nodes around it. -/
theorem assemble_mono {file : Text} {contents : Array (Option Content)}
    {depth bound number : Nat} {around inside : List Nat} {v : Value}
    (h : assemble file contents depth around number = some v) (finite : v.isFinite = true)
    (hle : depth ≤ bound) (hsub : inside ⊆ around) :
    assemble file contents bound inside number = some v := by
  induction depth generalizing bound around inside number v with
  | zero => cases h
  | succ depth ih =>
    obtain ⟨bound, rfl⟩ : ∃ more, bound = more + 1 := ⟨bound - 1, by omega⟩
    have hparts : ∀ part w, w.isFinite = true →
        assemble file contents depth (number :: around) part = some w →
          assemble file contents bound (number :: inside) part = some w :=
      fun part w hw hpart => ih hpart hw (by omega) (List.cons_subset_cons _ hsub)
    rw [assemble] at h ⊢
    split at h
    · cases h
      cases finite
    next hnone =>
    have hnew : inside.idxOf? number = none :=
      List.idxOf?_eq_none_iff.2 fun hmem => List.idxOf?_eq_none_iff.1 hnone (hsub hmem)
    rw [hnew]
    dsimp only at h ⊢
    split at h
    · exact h
    · obtain ⟨parts, hitems, h⟩ := Option.bind_eq_some_iff.1 h
      cases h
      rw [mapM_of_le (fun part w hw => hparts part w ((Value.isFinite_sequence_iff _).1 finite w hw))
        hitems]
      rfl
    · obtain ⟨parts, hentries, h⟩ := Option.bind_eq_some_iff.1 h
      cases h
      rw [mapM_of_le (fun entry part hmem hpart => ?_) hentries]
      · rfl
      · obtain ⟨w, hw, rfl⟩ := Option.map_eq_some_iff.1 hpart
        rw [hparts entry.2 w ((Value.isFinite_mapping_iff _ _).1 finite _ hmem) hw]
        rfl
    · exact h
    · obtain ⟨parts, hpairs, h⟩ := Option.bind_eq_some_iff.1 h
      cases h
      rw [mapM_of_le (fun pair part hmem hpart => ?_) hpairs]
      · rfl
      · have hpair := (Value.isFinite_sequence_iff _).1 finite part hmem
        obtain ⟨first, hfirst, hpart⟩ := Option.bind_eq_some_iff.1 hpart
        obtain ⟨second, hsecond, hpart⟩ := Option.bind_eq_some_iff.1 hpart
        cases hpart
        obtain ⟨hleft, hright⟩ := (Value.isFinite_pair_iff _ _).1 hpair
        rw [hparts _ _ hleft hfirst, hparts _ _ hright hsecond]
        rfl
    · cases h

/-- The entries of the mapping that is assembled from a node. -/
def heldBy (file : Text) (contents : Array (Option Content)) (bound number : Nat) : Entries :=
  match assemble file contents bound [] number with
  | some (.mapping _ entries) => entries
  | _ => []

/-- In a value without marks that has been assembled a label stands for the entries of its node. -/
theorem shares_of_assemble {file : Text} {contents : Array (Option Content)}
    {bound number : Nat} {around : List Nat} {v : Value}
    (h : assemble file contents bound around number = some v) (finite : v.isFinite = true) :
    v.Shares (heldBy file contents bound) := by
  refine assemble_induction
    (P := fun v => v.isFinite = true → v.Shares (heldBy file contents bound))
    (fun s _ => .scalar s) ?_ ?_ (fun _ members _ _ => .set members) ?_ h finite
  · intro parts hparts hfinite
    rw [Value.isFinite_sequence_iff] at hfinite
    exact .sequence fun part hpart => hparts part hpart (hfinite part hpart)
  · intro below hle around number entries parts _ hwhole _ hparts hfinite
    have hvalues := (Value.isFinite_mapping_iff _ _).1 hfinite
    refine .mapping (fun label heq => ?_) fun part hpart => hparts part hpart (hvalues part hpart)
    obtain rfl := Option.some.inj heq
    rw [heldBy, assemble_mono hwhole hfinite hle (List.nil_subset _)]
  · intro first second hfirst hsecond hfinite
    obtain ⟨hleft, hright⟩ := (Value.isFinite_pair_iff _ _).1 hfinite
    exact .pair (hfirst hleft) (hsecond hright)

/-- Leaving out labels, those that are left stand for the same entries without these labels. -/
theorem shares_keepLabels (kept : List Nat) {held : Nat → Entries} {v : Value}
    (h : v.Shares held) :
    (keepLabels kept v).Shares fun number => keepLabelsEntries kept (held number) := by
  induction h with
  | scalar s =>
    rw [keepLabels]
    exact .scalar s
  | sequence _ ih =>
    rw [keepLabels, keepLabelsAll_eq_map]
    exact .sequence (List.forall_mem_map.2 ih)
  | mapping own _ ih =>
    rw [keepLabels]
    refine .mapping ?_ ?_
    · intro number hnumber
      obtain ⟨hlabel, -⟩ := Option.filter_eq_some_iff.1 hnumber
      rw [own number hlabel]
    · rw [keepLabelsEntries_eq_map]
      exact List.forall_mem_map.2 ih
  | set members =>
    rw [keepLabels]
    exact .set members
  | pair _ _ ihleft ihright =>
    rw [keepLabels]
    exact .pair ihleft ihright

/-! ## Reading -/

/-- In the value of a text that does not contain itself labels stand for entries. -/
theorem exists_shares_of_read {file : Text} {cs : List Point} {v : Value}
    (h : read file cs = .ok v) (finite : v.isFinite = true) : ∃ held, v.Shares held := by
  rcases exists_assembled_of_read h with rfl | ⟨tree, state, w, -, hassembled, rfl⟩
  · exact ⟨fun _ => [], .scalar _⟩
  · unfold sharedLabels at finite ⊢
    split at finite
    · next hfinite =>
      rw [if_pos hfinite]
      exact ⟨_, shares_keepLabels _ (shares_of_assemble hassembled hfinite)⟩
    · next hnot => exact absurd finite hnot

end Yaml

/-- **Repeated mappings.**  In a document that is read and does not contain itself, mappings with the
same label have the same entries. -/
theorem exists_shares_of_readDocument {tree : FileTree} {file : Path} {document : Value}
    (h : readDocument tree file = .ok document) (finite : document.isFinite = true) :
    ∃ held, document.Shares held := by
  obtain ⟨name, cs, hread⟩ := exists_read_of_readDocument h
  exact Yaml.exists_shares_of_read hread finite

end SchemaCodecs
