/-
# Code points and texts

A code point is determined by its number, and a numeral has the digits of its number.  Code points and
texts are linearly ordered.

* `Point.toNat_injective`, `Point.ofNat_toNat` : code points by number;
* `Point.digits_eq_if` : the digits of a number, the last one apart.
-/
import Mathlib.Data.List.Lex
import Mathlib.Data.Nat.Digits.Defs
import Mathlib.Order.Basic
import SchemaCodecs.Text.Basic

namespace SchemaCodecs

/-! ## Code points by number -/

namespace Point

/-- No character has the number of a surrogate. -/
theorem toNat_char_ne (c : Char) (k : Fin 0x800) : (char c).toNat ≠ (lone k).toNat := by
  have hvalid : c.toNat < 0xd800 ∨ 0xdfff < c.toNat ∧ c.toNat < 0x110000 := c.valid
  have hlt := k.isLt
  show c.toNat ≠ 0xd800 + k.val
  omega

theorem toNat_injective : Function.Injective toNat := by
  intro a b h
  cases a with
  | char c =>
    cases b with
    | char d => exact congrArg char (Char.toNat_inj.1 h)
    | lone k => exact absurd h (toNat_char_ne c k)
  | lone k =>
    cases b with
    | char d => exact absurd h.symm (toNat_char_ne d k)
    | lone l => exact congrArg lone (Fin.ext (Nat.add_left_cancel h))

/-- A code point is the one with its number. -/
@[simp] theorem ofNat_toNat (c : Point) : ofNat c.toNat = c := by
  cases c with
  | char c =>
    have hvalid : c.toNat < 0xd800 ∨ 0xdfff < c.toNat ∧ c.toNat < 0x110000 := c.valid
    have hno : ¬ (c.toNat - firstSurrogate < 0x800 ∧ firstSurrogate ≤ c.toNat) := by
      simp only [firstSurrogate]
      omega
    rw [toNat, ofNat, dif_neg hno, Char.ofNat_toNat]
  | lone k =>
    have hk : firstSurrogate + k.val - firstSurrogate < 0x800 ∧
        firstSurrogate ≤ firstSurrogate + k.val := by
      have hlt := k.isLt
      omega
    rw [toNat, ofNat, dif_pos hk]
    simp

theorem toNat_lt (c : Point) : c.toNat < 0x110000 := by
  cases c with
  | char c =>
    have hvalid : c.toNat < 0xd800 ∨ 0xdfff < c.toNat ∧ c.toNat < 0x110000 := c.valid
    show c.toNat < 0x110000
    omega
  | lone k =>
    have hlt := k.isLt
    show 0xd800 + k.val < 0x110000
    omega

/-! ## Digits -/

/-- The digits of a number are those of its quotient by the base, and its remainder. -/
theorem digits_eq_if {base : Nat} (hbase : 1 < base) (n : Nat) : digits base n
    = if n < base then [digitChar n] else digits base (n / base) ++ [digitChar (n % base)] := by
  rw [digits, Nat.toDigits_eq_if hbase]
  split
  · rfl
  · rw [List.map_append, digits]
    rfl

/-- A number below a power of the base has at most as many digits as the exponent says. -/
theorem length_digits_le_iff {base n count : Nat} (hbase : 1 < base) (hcount : 0 < count) :
    (digits base n).length ≤ count ↔ n < base ^ count := by
  rw [digits, List.length_map, Nat.length_toDigits_le_iff hbase hcount]

/-! ## Code points in order -/

instance : LinearOrder Point where
  le_refl _ := Nat.le_refl _
  le_trans _ _ _ := Nat.le_trans
  lt_iff_le_not_ge _ _ := Nat.lt_iff_le_and_not_ge
  le_antisymm _ _ h h' := toNat_injective (Nat.le_antisymm h h')
  le_total a b := Nat.le_total a.toNat b.toNat
  toDecidableLE := inferInstance

end Point

/-! ## Texts -/

namespace Text

/-- A text of characters only. -/
def OfChars (s : Text) : Prop := ∀ k, Point.lone k ∉ s.toList

@[simp] theorem toList_numeral (n : Nat) : (numeral n).toList = Point.digits 10 n := by
  rw [numeral, toList, Nat.toString_eq_ofList_toDigits, String.toList_ofList]
  rfl

/-! ## Texts in order -/

instance : LinearOrder Text where
  le_refl s := lt_irrefl s.toList
  le_trans s t u hst htu := by
    have hst : s.toList ≤ t.toList := not_lt.1 hst
    have htu : t.toList ≤ u.toList := not_lt.1 htu
    exact not_lt.2 (hst.trans htu)
  lt_iff_le_not_ge s t := by
    show s.toList < t.toList ↔ ¬ t.toList < s.toList ∧ ¬ ¬ s.toList < t.toList
    rw [not_not, and_iff_right_of_imp]
    exact fun h => lt_asymm h
  le_antisymm s t hst hts := toList_inj.1 (le_antisymm (not_lt.1 hst) (not_lt.1 hts))
  le_total s t := by
    show ¬ t.toList < s.toList ∨ ¬ s.toList < t.toList
    rw [not_lt, not_lt]
    exact le_total _ _
  toDecidableLE := inferInstance

end Text

end SchemaCodecs
