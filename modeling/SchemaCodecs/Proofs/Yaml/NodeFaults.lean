/-
# Nodes without a value

A node has the value that its text has in its type.  The text of a mapping is that of its value under a
key of the type for that purpose; where these lead round, there is none.

* `NodeTable.StandsFor` : the text that a node stands for;
* `NodeTable.LacksValue` : a node of a table has no value;
* `Building.lacksValue_of_standingText` : the search for the text of a node ends, unless there is none.
-/
import Mathlib.Data.Fintype.Pigeonhole
import Mathlib.Logic.Relation
import SchemaCodecs.Proofs.Yaml.Merging
import SchemaCodecs.Proofs.Yaml.ScalarFaults
import SchemaCodecs.Yaml.Build

namespace SchemaCodecs.Yaml

open Relation

namespace NodeTable

variable {table before after : NodeTable} {number : Nat} {text : Text} {fault : Fault}

/-! ## The text of a node -/

/-- The text that a node stands for: that of a scalar, or of what a mapping stands for. -/
def StandsFor (table : NodeTable) (number : Nat) (text : Text) : Prop :=
  ∃ last tag, ReflTransGen table.PassesOn number last ∧ table.node last = .scalar tag text

/-- A node of a table has no value, for the reason that a fault tells. -/
inductive LacksValue (table : NodeTable) : Fault → Prop where
  /-- The text of a node has no value in its type. -/
  | scalar {number : Nat} {text : Text} {fault : Fault} (stands : table.StandsFor number text)
      (lacks : Yaml.LacksValue (table.node number).tag text fault) : LacksValue table fault
  /-- A mapping is to be a date, which only a scalar can be. -/
  | time {number : Nat} {entries : List (Nat × Nat)} {text : Text}
      (node : table.node number = .mapping .timestamp entries) (stands : table.StandsFor number text) :
    LacksValue table (.illTyped .notText)
  /-- A mapping stands for itself. -/
  | itself {number : Nat} (itself : TransGen table.PassesOn number number) :
    LacksValue table .endless

/-- A node stands for no other texts than before. -/
theorem StandsFor.of_evolves (h : after.StandsFor number text) (hevolves : before.Evolves after) :
    before.StandsFor number text := by
  obtain ⟨last, tag, hway, hlast⟩ := h
  obtain ⟨first, hfirst⟩ := hevolves.scalar hlast
  exact ⟨last, first, ReflTransGen.mono (fun _ _ => hevolves.passesOn) _ _ hway, hfirst⟩

/-- A node without a value had none before. -/
theorem LacksValue.of_evolves (h : after.LacksValue fault) (hevolves : before.Evolves after) :
    before.LacksValue fault := by
  cases h with
  | scalar stands lacks =>
    rename_i number text
    refine .scalar (stands.of_evolves hevolves) ?_
    rcases hevolves.tag number with hsame | ⟨-, htext⟩
    · rwa [← hsame]
    · rw [htext] at lacks
      cases lacks
  | time node stands =>
    rename_i number entries text
    obtain ⟨kind, others, hnode⟩ := hevolves.mapping node
    have hkind : kind = .timestamp := by
      rcases hevolves.tag number with hsame | ⟨-, htext⟩
      · rw [node, hnode] at hsame
        exact hsame.symm
      · rw [node] at htext
        cases htext
    subst hkind
    exact .time hnode (stands.of_evolves hevolves)
  | itself itself =>
    exact .itself (TransGen.mono (fun _ _ => hevolves.passesOn) _ _ itself)

/-- A mapping that stands for the value of a found entry. -/
theorem passesOn_of_find? {tag : Tag} {entries : List (Nat × Nat)} {key value : Nat}
    (hnode : table.node number = .mapping tag entries)
    (hfind : entries.find? (fun entry => (table.node entry.1).tag == .value) = some (key, value)) :
    table.PassesOn number value :=
  ⟨tag, entries, key, hnode, List.mem_of_find?_eq_some hfind, by
    simpa using List.find?_some hfind⟩

end NodeTable

namespace Building

open NodeTable

variable {table : NodeTable} {depth number : Nat} {text : Text} {fault : Fault}

theorem standsFor_of_standingText (h : standingText table depth number = .ok text) :
    table.StandsFor number text := by
  induction depth generalizing number with
  | zero => cases h
  | succ depth ih =>
    rw [standingText] at h
    split at h
    · next tag found hnode =>
      cases h
      exact ⟨number, tag, .refl, hnode⟩
    · cases h
    · next tag entries hnode =>
      split at h
      · next key value hfind =>
        obtain ⟨last, kind, hway, hlast⟩ := ih h
        exact ⟨last, kind, hway.head (passesOn_of_find? hnode hfind), hlast⟩
      · cases h

/-- If no text is found in a number of steps, there is a way of so many steps. -/
theorem exists_way_of_standingText (h : standingText table depth number = .error (.content fault)) :
    fault = .endless ∧ ∃ way : Nat → Nat, way 0 = number ∧
      ∀ i < depth, table.PassesOn (way i) (way (i + 1)) := by
  induction depth generalizing number with
  | zero =>
    cases h
    exact ⟨rfl, fun _ => number, rfl, fun _ hi => absurd hi (Nat.not_lt_zero _)⟩
  | succ depth ih =>
    rw [standingText] at h
    split at h
    · cases h
    · cases h
    · next tag entries hnode =>
      split at h
      · next key value hfind =>
        obtain ⟨rfl, way, hstart, hsteps⟩ := ih h
        refine ⟨rfl, fun i => i.casesOn number way, rfl, fun i hi => ?_⟩
        cases i with
        | zero =>
          show table.PassesOn number (way 0)
          rw [hstart]
          exact passesOn_of_find? hnode hfind
        | succ i => exact hsteps i (Nat.lt_of_succ_lt_succ hi)
      · cases h

theorem transGen_of_way {α : Type} {R : α → α → Prop} {way : Nat → α} {i j : Nat} (hlt : i < j)
    (hsteps : ∀ k < j, R (way k) (way (k + 1))) : TransGen R (way i) (way j) := by
  induction j, hlt using Nat.le_induction with
  | base => exact .single (hsteps i (Nat.lt_succ_self i))
  | succ j hij ih =>
    exact (ih fun k hk => hsteps k (Nat.lt_succ_of_lt hk)).tail (hsteps j (Nat.lt_succ_self j))

/-- A way of more steps than there are nodes comes back to one of them. -/
theorem exists_round {way : Nat → Nat}
    (hsteps : ∀ i < table.size + 1, table.PassesOn (way i) (way (i + 1))) :
    ∃ number, TransGen table.PassesOn number number := by
  have hlt : ∀ i < table.size + 1, way i < table.size := by
    intro i hi
    obtain ⟨tag, entries, key, hnode, -⟩ := hsteps i hi
    exact lt_size_of_mapping hnode
  let place (i : Fin (table.size + 1)) : Fin table.size := ⟨way i, hlt i i.isLt⟩
  obtain ⟨i, j, hne, hsame⟩ := Fintype.exists_ne_map_eq_of_card_lt place (by simp)
  have hway : way i = way j := congrArg Fin.val hsame
  rcases Nat.lt_or_gt_of_ne (Fin.val_ne_of_ne hne) with hij | hji
  · have hround := transGen_of_way hij fun k hk => hsteps k (hk.trans j.isLt)
    exact ⟨way i, hway ▸ hround⟩
  · have hround := transGen_of_way hji fun k hk => hsteps k (hk.trans i.isLt)
    exact ⟨way j, hway ▸ hround⟩

/-- Finding the text of a node only fails without end if a mapping stands for itself. -/
theorem lacksValue_of_standingText
    (h : standingText table (table.size + 1) number = .error (.content fault)) :
    table.LacksValue fault := by
  obtain ⟨rfl, way, -, hsteps⟩ := exists_way_of_standingText h
  obtain ⟨place, hround⟩ := exists_round hsteps
  exact .itself hround

end Building

end SchemaCodecs.Yaml
