/-
# Reading back numerals

The decimal numeral of a number stands for that number unless it has too many digits; then it stands
for none.

* `decimalDigits` : the digits of a number;
* `integerOfText?_numeral` : what a numeral stands for;
* `numeral_injective` : a numeral tells its number.
-/
import SchemaCodecs.Number.IntegerText
import SchemaCodecs.Proofs.Text.Points
import Mathlib.Data.List.TakeWhile
import Mathlib.Tactic.IntervalCases

namespace SchemaCodecs.Number

open Text

/-! ## Digits -/

/-- The decimal digits of a number, most significant first. -/
def decimalDigits (n : Nat) : List Nat :=
  if n < 10 then [n] else decimalDigits (n / 10) ++ [n % 10]

/-- A numeral consists of the digits of its number. -/
theorem toDigits_eq_map (n : Nat) :
    Point.digits 10 n = (decimalDigits n).map Point.digitChar := by
  induction n using Nat.strongRecOn with
  | ind n ih =>
    rw [Point.digits_eq_if (by decide), decimalDigits]
    split
    · rfl
    · rw [ih (n / 10) (by omega), List.map_append]
      rfl

@[simp] theorem ofDigits_decimalDigits (n : Nat) : ofDigits 10 (decimalDigits n) = n := by
  induction n using Nat.strongRecOn with
  | ind n ih =>
    rw [decimalDigits]
    split
    · simp [ofDigits]
    · have hfront := ih (n / 10) (by omega)
      rw [ofDigits] at hfront ⊢
      rw [List.foldl_append, hfront, List.foldl_cons, List.foldl_nil]
      omega

/-- Digits are smaller than ten. -/
theorem lt_ten_of_mem_decimalDigits {n d : Nat} (h : d ∈ decimalDigits n) : d < 10 := by
  induction n using Nat.strongRecOn with
  | ind n ih =>
    rw [decimalDigits] at h
    split at h
    · next hlt => rwa [List.mem_singleton.1 h]
    · rcases List.mem_append.1 h with h | h
      · exact ih (n / 10) (by omega) h
      · rw [List.mem_singleton.1 h]
        omega

theorem decimalDigits_ne_nil (n : Nat) : decimalDigits n ≠ [] := by
  rw [decimalDigits]
  split <;> simp

theorem isDigit_of_mem_numeral {n : Nat} {c : Point} (h : c ∈ (Text.numeral n).toList) :
    c.isDigit = true := by
  rw [toList_numeral, toDigits_eq_map] at h
  obtain ⟨d, hd, rfl⟩ := List.mem_map.1 h
  have hsmall := lt_ten_of_mem_decimalDigits hd
  interval_cases d <;> rfl

@[simp] theorem isBlank_digitChar {d : Nat} (h : d < 10) : isBlank (Point.digitChar d) = false := by
  interval_cases d <;> rfl

@[simp] theorem asciiDigit_digitChar {d : Nat} (h : d < 10) :
    asciiDigit (Point.digitChar d) = Point.digitChar d := by
  interval_cases d <;> decide

@[simp] theorem digitInBase?_digitChar {d : Nat} (h : d < 10) :
    digitInBase? 10 (Point.digitChar d) = some d := by
  have hvalue : hexValue? (Point.digitChar d) = some d := by interval_cases d <;> decide
  rw [digitInBase?, hvalue, Option.filter_some, if_pos (decide_eq_true h)]

theorem digitChar_ne {d : Nat} (h : d < 10) :
    Point.digitChar d ≠ '_' ∧ Point.digitChar d ≠ '-' ∧ Point.digitChar d ≠ '+' := by
  interval_cases d <;> decide

/-! ## Reading digits -/

section Reading

variable {digits : List Nat} (small : ∀ d ∈ digits, d < 10)

include small

/-- Digits have their values. -/
theorem groupedDigits?_map (given : digits ≠ []) :
    groupedDigits? 10 (digits.map Point.digitChar) = some digits := by
  induction digits with
  | nil => exact absurd rfl given
  | cons d rest ih =>
    obtain ⟨hd, hrest⟩ := List.forall_mem_cons.1 small
    cases rest with
    | nil => simp [groupedDigits?, digitInBase?_digitChar hd]
    | cons e rest =>
      have he := (digitChar_ne (hrest e List.mem_cons_self)).1
      have hothers := ih hrest (List.cons_ne_nil e rest)
      rw [List.map_cons] at hothers
      rw [List.map_cons, List.map_cons, groupedDigits?, digitInBase?_digitChar hd, hothers]
      · rfl
      · simp
      · intro others heq
        exact he (List.cons.inj heq).1

/-- There are no blanks around digits. -/
theorem trimBlanks_map : trimBlanks (digits.map Point.digitChar) = digits.map Point.digitChar := by
  have hkept : ∀ cs : List Nat, (∀ d ∈ cs, d < 10) →
      (cs.map Point.digitChar).dropWhile isBlank = cs.map Point.digitChar := by
    intro cs hcs
    cases cs with
    | nil => rfl
    | cons d rest =>
      rw [List.map_cons, List.dropWhile_cons_of_neg]
      simp [isBlank_digitChar (hcs d List.mem_cons_self)]
  rw [trimBlanks, hkept digits small, ← List.map_reverse,
    hkept digits.reverse fun d hd => small d (List.mem_reverse.1 hd), ← List.map_reverse,
    List.reverse_reverse]

theorem map_asciiDigit_map :
    (digits.map Point.digitChar).map asciiDigit = digits.map Point.digitChar := by
  rw [List.map_map]
  exact List.map_congr_left fun d hd => asciiDigit_digitChar (small d hd)

/-- Digits make up a number unless there are too many of them. -/
theorem naturalInBase_map (given : digits ≠ []) :
    naturalInBase 10 (digits.map Point.digitChar)
      = if digitLimit < digits.length then .error (.tooLong digits.length)
        else .ok (ofDigits 10 digits) := by
  have hmark : dropBaseMark 10 (digits.map Point.digitChar) = digits.map Point.digitChar := by
    unfold dropBaseMark
    split <;> simp_all [baseMark?]
  have hpart : ∀ c ∈ digits.map Point.digitChar,
      (c == '_' || (digitInBase? 10 c).isSome) = true := by
    intro c hc
    obtain ⟨d, hd, rfl⟩ := List.mem_map.1 hc
    rw [digitInBase?_digitChar (small d hd)]
    exact Bool.or_true _
  simp only [naturalInBase, hmark, List.takeWhile_eq_self_iff.2 hpart,
    List.dropWhile_eq_nil_iff.2 hpart, groupedDigits?_map small given, true_and, List.isEmpty_nil,
    if_true]

/-- Digits without a sign stand for the number they make up. -/
theorem integerInBase_map (given : digits ≠ []) :
    integerInBase 10 (digits.map Point.digitChar)
      = (naturalInBase 10 (digits.map Point.digitChar)).map Int.ofNat := by
  rw [integerInBase, trimBlanks_map small, map_asciiDigit_map small]
  cases digits with
  | nil => exact absurd rfl given
  | cons d rest =>
    obtain ⟨-, hminus, hplus⟩ := digitChar_ne (small d List.mem_cons_self)
    rw [List.map_cons]
    split
    · next heq => exact absurd (List.cons.inj heq).1 hminus
    · next heq => exact absurd (List.cons.inj heq).1 hplus
    · rfl

end Reading

/-! ## Numerals -/

theorem digitLimit_lt_length_iff (n : Nat) :
    digitLimit < (decimalDigits n).length ↔ 10 ^ digitLimit ≤ n := by
  have hlength : (Point.digits 10 n).length = (decimalDigits n).length := by
    rw [toDigits_eq_map, List.length_map]
  have hlimit : 0 < digitLimit := by decide
  rw [← hlength, ← Nat.not_le, Point.length_digits_le_iff (by decide) hlimit, Nat.not_lt]

/-- **Numerals.**  A numeral stands for its number unless it has too many digits. -/
theorem integerOfText?_numeral (n : Nat) : integerOfText? (Text.numeral n).toList
    = if n < 10 ^ digitLimit then some (n : Int) else none := by
  have hsmall := fun d => @lt_ten_of_mem_decimalDigits n d
  have hgiven := decimalDigits_ne_nil n
  rw [integerOfText?, toList_numeral, toDigits_eq_map,
    integerInBase_map hsmall hgiven, naturalInBase_map hsmall hgiven, ofDigits_decimalDigits]
  by_cases hlong : digitLimit < (decimalDigits n).length
  · rw [if_pos hlong, if_neg (Nat.not_lt.2 ((digitLimit_lt_length_iff n).1 hlong))]
    rfl
  · rw [if_neg hlong, if_pos (Nat.not_le.1 (mt (digitLimit_lt_length_iff n).2 hlong))]
    rfl

/-- A numeral tells its number. -/
theorem numeral_injective : Function.Injective fun n : Nat => Text.numeral n := by
  intro m n h
  have hchars : (numeral m).toList = (numeral n).toList := congrArg Text.toList h
  rw [toList_numeral, toList_numeral] at hchars
  have hdigits : Nat.toDigits 10 m = Nat.toDigits 10 n :=
    List.map_injective_iff.2 (fun _ _ => Point.char.inj) hchars
  have hvalues := congrArg (fun digits => Nat.ofDigitChars 10 digits 0) hdigits
  simpa using hvalues

end SchemaCodecs.Number
