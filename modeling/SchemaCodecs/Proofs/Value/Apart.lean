/-
# Keys and members without repetitions

Mappings are made by putting values under keys, and sets by dropping repetitions.  So no mapping that
is made of pairs repeats a key, and no set a member.
-/
import SchemaCodecs.Proofs.Value.Sameness
import SchemaCodecs.Value.SetOrder

namespace SchemaCodecs

/-! ## Mappings made of pairs -/

/-- Keys of which no two are the same. -/
abbrev Apart (keys : List Scalar) : Prop :=
  keys.Pairwise fun a b => a.same b = false

namespace Entries

variable {α : Type}

/-- A key stays or is added last when a value is put under it. -/
theorem keys_put (key : Scalar) (value : α) (entries : List (Scalar × α)) :
    (put key value entries).map (·.1)
      = if (entries.map (·.1)).any (·.same key) then entries.map (·.1)
        else entries.map (·.1) ++ [key] := by
  induction entries with
  | nil => rfl
  | cons entry rest ih =>
    rw [put]
    split
    · next hsame => simp [hsame]
    · next hsame =>
      rw [List.map_cons, ih, List.map_cons, List.any_cons, Bool.eq_false_iff.2 hsame,
        Bool.false_or]
      split <;> rfl

/-- Putting a value under a key repeats no key. -/
theorem apart_put {key : Scalar} {value : α} {entries : List (Scalar × α)}
    (h : Apart (entries.map (·.1))) : Apart ((put key value entries).map (·.1)) := by
  rw [keys_put]
  split
  · exact h
  · next hnone =>
    refine List.pairwise_append.2 ⟨h, List.pairwise_singleton _ _, ?_⟩
    intro other hother last hlast
    rw [List.mem_singleton.1 hlast]
    rw [Bool.not_eq_true, List.any_eq_false] at hnone
    exact Bool.eq_false_iff.2 (hnone other hother)

/-- A mapping made of pairs repeats no key. -/
theorem apart_ofPairs (pairs : List (Scalar × α)) : Apart ((ofPairs pairs).map (·.1)) := by
  have hfold : ∀ entries : List (Scalar × α), Apart (entries.map (·.1)) →
      Apart ((pairs.foldl (fun entries pair => put pair.1 pair.2 entries) entries).map (·.1)) := by
    induction pairs with
    | nil => exact fun _ h => h
    | cons pair rest ih => exact fun entries h => ih _ (apart_put h)
  exact hfold [] List.Pairwise.nil

end Entries

/-! ## Sets -/

namespace Scalar

/-- First occurrences are apart. -/
theorem apart_distinctBy (members : List Scalar) : Apart (distinctBy same members) := by
  induction members with
  | nil => exact List.Pairwise.nil
  | cons member rest ih =>
    rw [distinctBy]
    refine List.Pairwise.cons ?_ (ih.filter _)
    intro other hother
    simpa using (List.mem_filter.1 hother).2

namespace PlaceTable

/-- The numbers in a table. -/
def numbers (table : PlaceTable) : List Scalar :=
  table.placed.map (·.2)

theorem inOrder_perm (table : PlaceTable) : table.inOrder.Perm table.numbers :=
  (List.mergeSort_perm _ _).map _

/-- A table made of numbers has them all. -/
theorem numbers_foldl_enter (members : List Scalar) (table : PlaceTable) :
    (members.foldl enter table).numbers.Perm (table.numbers ++ members) := by
  induction members generalizing table with
  | nil => rw [List.append_nil, List.foldl_nil]
  | cons member rest ih =>
    rw [List.foldl_cons]
    refine (ih (table.enter member)).trans ?_
    exact (List.perm_middle).symm

theorem numbers_ofNumbers (bound : Nat) (members : List Scalar) :
    (ofNumbers bound members).numbers.Perm members :=
  numbers_foldl_enter members _

/-- A growing table has all numbers that have entered it. -/
theorem numbers_foldl_enterGrowing (members : List Scalar) (table : PlaceTable) :
    (members.foldl enterGrowing table).numbers.Perm (table.numbers ++ members) := by
  induction members generalizing table with
  | nil => rw [List.append_nil, List.foldl_nil]
  | cons member rest ih =>
    rw [List.foldl_cons]
    refine (ih (table.enterGrowing member)).trans ?_
    have hstep : (table.enterGrowing member).numbers.Perm (member :: table.numbers) := by
      unfold enterGrowing
      simp only
      split
      · exact List.Perm.refl _
      · exact (numbers_ofNumbers _ _).trans (inOrder_perm _)
    exact (hstep.append_right rest).trans List.perm_middle.symm

end PlaceTable

/-- The members of a set are the first occurrences in another order. -/
theorem setOf_perm (members : List Scalar) : (setOf members).Perm (distinctBy same members) := by
  unfold setOf
  simp only
  have hnumbers := fun bound (numbers : List Scalar) =>
    (PlaceTable.inOrder_perm _).trans ((PlaceTable.numbers_foldl_enterGrowing _ { size := 8 }).trans
      ((PlaceTable.inOrder_perm (PlaceTable.ofNumbers bound numbers)).trans
        (PlaceTable.numbers_ofNumbers bound numbers)))
  refine ((hnumbers _ _).append_right _).trans ?_
  have hothers : (fun s : Scalar => s.residue?.isNone) = fun s => !s.residue?.isSome := by
    funext s
    cases s.residue? <;> rfl
  rw [hothers]
  exact List.filter_append_perm _ _

/-- The members of a set are apart. -/
theorem apart_setOf (members : List Scalar) : Apart (setOf members) := by
  refine ((setOf_perm members).pairwise_iff ?_).2 (apart_distinctBy members)
  intro a b h
  rw [same_comm]
  exact h

end Scalar

end SchemaCodecs
