/-
# Equality of values

Whether two values are equal as they are written, the order of entries and the labels included, can
be computed.
-/
import SchemaCodecs.Proofs.Value.Sameness

namespace SchemaCodecs.Value

mutual

/-- Whether two values are equal as written. -/
def isEqual : Value → Value → Bool
  | scalar a, scalar b => decide (a = b)
  | sequence xs, sequence ys => areEqualItems xs ys
  | mapping label xs, mapping label' ys => decide (label = label') && areEqualEntries xs ys
  | set xs, set ys => decide (xs = ys)
  | pair x x', pair y y' => isEqual x y && isEqual x' y'
  | _, _ => false

/-- Whether two lists of values are equal as written. -/
def areEqualItems : List Value → List Value → Bool
  | [], [] => true
  | x :: xs, y :: ys => isEqual x y && areEqualItems xs ys
  | _, _ => false

/-- Whether two lists of entries are equal as written. -/
def areEqualEntries : List (Scalar × Value) → List (Scalar × Value) → Bool
  | [], [] => true
  | (key, x) :: xs, (key', y) :: ys =>
    decide (key = key') && isEqual x y && areEqualEntries xs ys
  | _, _ => false

end

/-- The computation decides equality of lists if it does so for their items. -/
theorem areEqualItems_iff {xs : List Value}
    (h : ∀ x ∈ xs, ∀ y, isEqual x y = true ↔ x = y) (ys : List Value) :
    areEqualItems xs ys = true ↔ xs = ys := by
  induction xs generalizing ys with
  | nil => cases ys <;> simp [areEqualItems]
  | cons x xs ih =>
    cases ys with
    | nil => simp [areEqualItems]
    | cons y ys =>
      rw [areEqualItems, Bool.and_eq_true, h x List.mem_cons_self,
        ih fun z hz => h z (List.mem_cons_of_mem _ hz), List.cons.injEq]

/-- The computation decides equality of entries if it does so for their values. -/
theorem areEqualEntries_iff {xs : Entries}
    (h : ∀ x ∈ xs, ∀ y, isEqual x.2 y = true ↔ x.2 = y) (ys : Entries) :
    areEqualEntries xs ys = true ↔ xs = ys := by
  induction xs generalizing ys with
  | nil => cases ys <;> simp [areEqualEntries]
  | cons x xs ih =>
    cases ys with
    | nil => simp [areEqualEntries]
    | cons y ys =>
      rw [areEqualEntries, Bool.and_eq_true, Bool.and_eq_true, decide_eq_true_iff,
        h x List.mem_cons_self, ih fun z hz => h z (List.mem_cons_of_mem _ hz), List.cons.injEq,
        Prod.ext_iff]

@[simp] theorem isEqual_iff (v w : Value) : isEqual v w = true ↔ v = w := by
  induction v using parts_induction generalizing w with
  | scalar a => cases w <;> simp [isEqual]
  | sequence items ih => cases w <;> simp [isEqual, areEqualItems_iff ih]
  | mapping label entries ih => cases w <;> simp [isEqual, areEqualEntries_iff ih]
  | set members => cases w <;> simp [isEqual]
  | pair first second ihfirst ihsecond => cases w <;> simp [isEqual, ihfirst, ihsecond]

instance : DecidableEq Value := fun v w => decidable_of_iff _ (isEqual_iff v w)

end SchemaCodecs.Value
