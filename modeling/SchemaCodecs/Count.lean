/-
# Counting

A fact about counts that shows that a recursion ends.
-/

namespace SchemaCodecs

/-- A condition that holds of fewer items, and not of one of them, is counted less often. -/
theorem countP_lt_countP {α : Type} {p q : α → Bool} {items : List α}
    (sub : ∀ a, q a = true → p a = true) {a : α} (mem : a ∈ items) (hp : p a = true)
    (hq : q a = false) : items.countP q < items.countP p := by
  induction items with
  | nil => cases mem
  | cons b rest ih =>
    have mono : rest.countP q ≤ rest.countP p := List.countP_mono_left fun c _ => sub c
    rcases List.mem_cons.1 mem with rfl | mem
    · simp only [List.countP_cons, hp, hq]
      simp; omega
    · have one : (if q b = true then 1 else 0) ≤ (if p b = true then 1 else 0) := by
        split
        · next hb => simp [sub b hb]
        · exact Nat.zero_le _
      simp only [List.countP_cons]
      exact Nat.add_lt_add_of_lt_of_le (ih mem) one

end SchemaCodecs
