/-
# Values that contain themselves

Where no collection is met again, there are no marks to fill, and comparing comes to an end.

* `fill_of_isFinite` : filling marks changes nothing where there are none;
* `same_eq_false_of_entangled` : values that go on for ever together are never found to be the same;
* `entangled_of_isFinite` : the comparison with a value without marks comes to an end.
-/
import SchemaCodecs.Proofs.Value.Sameness
import SchemaCodecs.Value.Recurrence

namespace SchemaCodecs

@[simp] theorem Scalar.same_again_iff (here there : Recurrence) :
    (again here).same (again there) = true ↔ here = there := by
  rw [same_iff]
  show (Sum.inr (Sum.inr (again here)) : Int ⊕ (Int × Nat × Nat) ⊕ Scalar)
    = Sum.inr (Sum.inr (again there)) ↔ _
  simp

namespace Value

/-! ## Marks -/

@[simp] theorem areFinite_iff (items : List Value) :
    areFinite items = true ↔ ∀ v ∈ items, v.isFinite = true := by
  induction items with
  | nil => simp [areFinite]
  | cons item rest ih => simp [areFinite, ih]

@[simp] theorem entriesFinite_iff (entries : Entries) :
    entriesFinite entries = true ↔ ∀ entry ∈ entries, entry.2.isFinite = true := by
  induction entries with
  | nil => simp [entriesFinite]
  | cons entry rest ih => simp [entriesFinite, ih]

@[simp] theorem isFinite_sequence_iff (items : List Value) :
    (sequence items).isFinite = true ↔ ∀ v ∈ items, v.isFinite = true := by
  rw [isFinite, areFinite_iff]

@[simp] theorem isFinite_mapping_iff (label : Option Nat) (entries : Entries) :
    (mapping label entries).isFinite = true ↔ ∀ entry ∈ entries, entry.2.isFinite = true := by
  rw [isFinite, entriesFinite_iff]

@[simp] theorem isFinite_pair_iff (first second : Value) :
    (pair first second).isFinite = true ↔ first.isFinite = true ∧ second.isFinite = true := by
  rw [isFinite, Bool.and_eq_true]

/-! ## Filling marks -/

@[simp] theorem fillItems_eq_map (whole : Value) (levels : Nat) (items : List Value) :
    fillItems whole levels items = items.map (fill whole levels) := by
  induction items with
  | nil => rfl
  | cons item rest ih => rw [fillItems, ih, List.map_cons]

@[simp] theorem fillEntries_eq_map (whole : Value) (levels : Nat) (entries : Entries) :
    fillEntries whole levels entries
      = entries.map fun entry => (entry.1, fill whole levels entry.2) := by
  induction entries with
  | nil => rfl
  | cons entry rest ih => rw [fillEntries, ih, List.map_cons]

/-- A value without marks is not changed by filling marks. -/
theorem fill_of_isFinite (whole : Value) (levels : Nat) {v : Value} (h : v.isFinite = true) :
    fill whole levels v = v := by
  induction v using parts_induction generalizing levels with
  | scalar s =>
    cases s with
    | again place => cases h
    | _ => rfl
  | sequence items ih =>
    rw [isFinite_sequence_iff] at h
    rw [fill, fillItems_eq_map, List.map_congr_left fun v hv => ih v hv _ (h v hv), List.map_id']
  | mapping label entries ih =>
    rw [isFinite_mapping_iff] at h
    rw [fill, fillEntries_eq_map,
      List.map_congr_left fun entry hentry =>
        congrArg (entry.1, ·) (ih entry hentry _ (h entry hentry)),
      List.map_id']
  | set members => rfl
  | pair first second ihfirst ihsecond =>
    obtain ⟨hfirst, hsecond⟩ := (isFinite_pair_iff first second).1 h
    rw [fill, ihfirst levels hfirst, ihsecond levels hsecond]

/-- Filling marks repeats no keys and members. -/
theorem Distinct.fill {whole v : Value} (hwhole : whole.Distinct) (h : v.Distinct) (levels : Nat) :
    (fill whole levels v).Distinct := by
  induction h generalizing levels with
  | scalar s =>
    unfold Value.fill
    split
    · split
      · exact hwhole
      · exact .scalar _
    · exact .scalar _
    all_goals simp_all
  | sequence _ ih =>
    rw [Value.fill, fillItems_eq_map]
    exact .sequence (List.forall_mem_map.2 fun v hv => ih v hv _)
  | mapping apart _ ih =>
    rw [Value.fill, fillEntries_eq_map]
    exact .mapping (List.pairwise_map.2 apart)
      (List.forall_mem_map.2 fun entry hentry => ih entry hentry _)
  | set apart =>
    rw [Value.fill]
    exact .set apart
  | pair _ _ ihleft ihright =>
    rw [Value.fill]
    exact .pair (ihleft _) (ihright _)

/-! ## Comparisons without an end -/

/-- Lists whose comparison has no end are not found to be the same, if that holds of their items. -/
theorem sameItems_eq_false_of_entangled {xs ys : List Value}
    (parts : ∀ x ∈ xs, ∀ y, entangled x y = true → same x y = false)
    (h : itemsEntangled xs ys = true) : sameItems xs ys = false := by
  induction xs generalizing ys with
  | nil => cases h
  | cons x xs ih =>
    obtain ⟨hx, hxs⟩ := List.forall_mem_cons.1 parts
    cases ys with
    | nil => cases h
    | cons y ys =>
      rw [itemsEntangled, Bool.or_eq_true, Bool.and_eq_true] at h
      rw [sameItems, Bool.and_eq_false_iff]
      exact h.imp (hx y) fun hrest => ih hxs hrest.2

/-- Entries whose comparison has no end are not found to be the same, if that holds of their
values. -/
theorem sameEntries_eq_false_of_entangled {xs ys : Entries}
    (parts : ∀ entry ∈ xs, ∀ y, entangled entry.2 y = true → same entry.2 y = false)
    (h : entriesEntangled xs ys = true) : sameEntries xs ys = false := by
  induction xs with
  | nil => cases h
  | cons entry xs ih =>
    obtain ⟨key, x⟩ := entry
    obtain ⟨hx, hxs⟩ := List.forall_mem_cons.1 parts
    rw [entriesEntangled] at h
    rw [sameEntries]
    cases hlookup : Entries.lookup key ys with
    | none => rfl
    | some y =>
      simp only [hlookup, Bool.or_eq_true, Bool.and_eq_true] at h
      rw [Bool.and_eq_false_iff]
      exact h.imp (hx y) fun hrest => ih hxs hrest.2

/-- Values whose comparison has no end are not found to be the same. -/
theorem same_eq_false_of_entangled {a b : Value} (h : entangled a b = true) : same a b = false := by
  induction a using parts_induction generalizing b with
  | scalar s =>
    cases s with
    | again here =>
      cases b with
      | scalar t =>
        cases t with
        | again there =>
          -- Marks of different collections are different.
          rw [same, Bool.eq_false_iff, ne_eq, Scalar.same_again_iff]
          rintro rfl
          simp [entangled] at h
        | _ => cases h
      | _ => rfl
    | _ => cases b <;> cases h
  | sequence items ih =>
    cases b with
    | scalar t => rfl
    | sequence others =>
      rw [entangled, Bool.and_eq_true] at h
      exact sameItems_eq_false_of_entangled (fun x hx y => ih x hx) h.2
    | _ => rfl
  | mapping label entries ih =>
    cases b with
    | mapping other others =>
      rw [entangled, Bool.and_eq_true] at h
      rw [same, sameEntries_eq_false_of_entangled (fun entry hentry y => ih entry hentry) h.2,
        Bool.and_false]
    | _ => rfl
  | set members => cases b <;> cases h
  | pair first second ihfirst ihsecond =>
    cases b with
    | pair other another =>
      rw [entangled, Bool.or_eq_true, Bool.and_eq_true] at h
      rw [same, Bool.and_eq_false_iff]
      exact h.imp ihfirst fun hrest => ihsecond hrest.2
    | _ => cases h

/-- No comparison with a list of values without marks goes on without an end, if that holds of its
items. -/
theorem itemsEntangled_of_isFinite {xs ys : List Value}
    (parts : ∀ x ∈ xs, ∀ y : Value, y.isFinite = true → entangled x y = false)
    (finite : ∀ y ∈ ys, y.isFinite = true) : itemsEntangled xs ys = false := by
  induction xs generalizing ys with
  | nil => rfl
  | cons x xs ih =>
    obtain ⟨hx, hxs⟩ := List.forall_mem_cons.1 parts
    cases ys with
    | nil => rfl
    | cons y ys =>
      obtain ⟨hy, hys⟩ := List.forall_mem_cons.1 finite
      rw [itemsEntangled, hx y hy, ih hxs hys, Bool.and_false, Bool.or_false]

/-- No comparison with entries without marks goes on without an end, if that holds of their values. -/
theorem entriesEntangled_of_isFinite {xs ys : Entries}
    (parts : ∀ entry ∈ xs, ∀ y : Value, y.isFinite = true → entangled entry.2 y = false)
    (finite : ∀ entry ∈ ys, entry.2.isFinite = true) : entriesEntangled xs ys = false := by
  induction xs with
  | nil => rfl
  | cons entry xs ih =>
    obtain ⟨key, x⟩ := entry
    obtain ⟨hx, hxs⟩ := List.forall_mem_cons.1 parts
    rw [entriesEntangled]
    cases hlookup : Entries.lookup key ys with
    | none => rfl
    | some y =>
      obtain ⟨other, hother, -, rfl⟩ := exists_entry_of_lookup hlookup
      simp only [hx _ (finite other hother), ih hxs, Bool.and_false, Bool.or_false]

/-- The comparison with a value without marks comes to an end. -/
theorem entangled_of_isFinite (a : Value) {b : Value} (h : b.isFinite = true) :
    entangled a b = false := by
  induction a using parts_induction generalizing b with
  | scalar s =>
    cases s with
    | again here =>
      cases b with
      | scalar t =>
        cases t with
        | again there => cases h
        | _ => rfl
      | sequence items =>
        rw [isFinite] at h
        rw [entangled, h, Bool.not_true, Bool.and_false]
      | mapping label entries =>
        rw [isFinite] at h
        rw [entangled, h, Bool.not_true, Bool.and_false]
      | _ => rfl
    | _ => cases b <;> rfl
  | sequence items ih =>
    cases b with
    | scalar t =>
      cases t with
      | again there => cases h
      | _ => rfl
    | sequence others =>
      rw [entangled, itemsEntangled_of_isFinite (fun x hx y => ih x hx)
        ((isFinite_sequence_iff others).1 h), Bool.and_false]
    | _ => rfl
  | mapping label entries ih =>
    cases b with
    | scalar t =>
      cases t with
      | again there => cases h
      | _ => rfl
    | mapping other others =>
      rw [entangled, entriesEntangled_of_isFinite (fun entry hentry y => ih entry hentry)
        ((isFinite_mapping_iff other others).1 h), Bool.and_false]
    | _ => rfl
  | set members => cases b <;> rfl
  | pair first second ihfirst ihsecond =>
    cases b with
    | pair other another =>
      obtain ⟨hother, hanother⟩ := (isFinite_pair_iff other another).1 h
      rw [entangled, ihfirst hother, ihsecond hanother, Bool.and_false, Bool.or_false]
    | _ => rfl

end Value

end SchemaCodecs
