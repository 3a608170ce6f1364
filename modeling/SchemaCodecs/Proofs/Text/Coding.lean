/-
# Reading back escapes

A text written character by character can be read back if no written character is the beginning of
another one, and if the mark at the end is not the beginning of a written character.  Names in
messages and keys of object literals are written in this way.

* `PrefixCode.cut` : where the written text ends, and what it was;
* `quoted_injective` : a quoted text tells the text.
-/
import SchemaCodecs.Proofs.Text.Points
import SchemaCodecs.Text.Quoted
import Mathlib.Tactic.IntervalCases

namespace SchemaCodecs.Text

/-! ## Codes that can be read back -/

/-- A way of writing characters that can be read back up to a mark. -/
structure PrefixCode (code : Point → List Point) (mark : Point) : Prop where
  /-- No written character begins with the mark. -/
  starts : ∀ c, ∃ first rest, code c = first :: rest ∧ first ≠ mark
  /-- No written character is the beginning of another one. -/
  apart : ∀ {c d : Point} {x y : List Point}, code c ++ x = code d ++ y → c = d ∧ x = y

variable {code : Point → List Point} {mark : Point}

theorem PrefixCode.flatMap_cons_ne (h : PrefixCode code mark) (c : Point) (cs x y : List Point) :
    (c :: cs).flatMap code ++ x ≠ mark :: y := by
  intro heq
  obtain ⟨first, rest, hcode, hne⟩ := h.starts c
  rw [List.flatMap_cons, hcode] at heq
  exact hne (List.cons.inj heq).1

/-- **Reading back.**  A written text with the mark behind it tells the text and what follows. -/
theorem PrefixCode.cut (h : PrefixCode code mark) {cs ds x y : List Point}
    (heq : cs.flatMap code ++ mark :: x = ds.flatMap code ++ mark :: y) : cs = ds ∧ x = y := by
  induction cs generalizing ds with
  | nil =>
    cases ds with
    | nil => exact ⟨rfl, (List.cons.inj heq).2⟩
    | cons d ds => exact absurd heq.symm (h.flatMap_cons_ne d ds _ _)
  | cons c cs ih =>
    cases ds with
    | nil => exact absurd heq (h.flatMap_cons_ne c cs _ _)
    | cons d ds =>
      rw [List.flatMap_cons, List.flatMap_cons, List.append_assoc, List.append_assoc] at heq
      obtain ⟨rfl, hrest⟩ := h.apart heq
      obtain ⟨rfl, rfl⟩ := ih hrest
      exact ⟨rfl, rfl⟩

/-! ## Hexadecimal numerals -/

/-- The value of a hexadecimal digit. -/
def hexDigitValue (c : Point) : Nat :=
  if c.isDigit then c.toNat - '0'.toNat else c.toNat - 'a'.toNat + 10

/-- The value of a hexadecimal numeral. -/
def hexValue (digits : List Point) : Nat :=
  digits.foldl (fun value c => 16 * value + hexDigitValue c) 0

@[simp] theorem hexDigitValue_digitChar {n : Nat} (h : n < 16) :
    hexDigitValue (Point.digitChar n) = n := by
  interval_cases n <;> rfl

/-- A numeral has the value of its number. -/
theorem hexValue_toDigits (n : Nat) : hexValue (Point.digits 16 n) = n := by
  induction n using Nat.strongRecOn with
  | ind n ih =>
    -- The last digit is a remainder, and the digits before it are those of the quotient.
    rw [Point.digits_eq_if (by decide)]
    split
    · next h => simp [hexValue, hexDigitValue_digitChar h]
    · next h =>
      have hfront := ih (n / 16) (by omega)
      have hlast : hexDigitValue (Point.digitChar (n % 16)) = n % 16 :=
        hexDigitValue_digitChar (Nat.mod_lt n (by decide))
      rw [hexValue] at hfront ⊢
      rw [List.foldl_append, hfront, List.foldl_cons, List.foldl_nil, hlast]
      omega

/-- Zeros in front do not change the value. -/
theorem hexValue_hexPadded (width n : Nat) : hexValue (hexPadded width n) = n := by
  have hzeros : ∀ count : Nat,
      (List.replicate count (.char '0')).foldl (fun value c => 16 * value + hexDigitValue c) 0 = 0 := by
    intro count
    induction count with
    | zero => rfl
    | succ count ih => rwa [List.replicate_succ]
  have hdigits := hexValue_toDigits n
  rw [hexValue] at hdigits ⊢
  rw [hexPadded, List.foldl_append, hzeros, hdigits]

theorem length_hexPadded {width n : Nat} (hwidth : 0 < width) (h : n < 16 ^ width) :
    (hexPadded width n).length = width := by
  have hlength := (Point.length_digits_le_iff (by decide) hwidth).2 h
  simp only [hexPadded, List.length_append, List.length_replicate]
  omega

/-! ## Names in messages -/

/-- The first character that is meant by a text between quotes, and what follows it. -/
def readQuoted : List Point → Option (Point × List Point)
  | '\\' :: 'n' :: rest => some ('\n', rest)
  | '\\' :: 'r' :: rest => some ('\r', rest)
  | '\\' :: 't' :: rest => some ('\t', rest)
  | '\\' :: 'x' :: rest => some (Point.ofNat (hexValue (rest.take 2)), rest.drop 2)
  | '\\' :: 'u' :: rest => some (Point.ofNat (hexValue (rest.take 4)), rest.drop 4)
  | '\\' :: 'U' :: rest => some (Point.ofNat (hexValue (rest.take 8)), rest.drop 8)
  | '\\' :: c :: rest => some (c, rest)
  | c :: rest => some (c, rest)
  | [] => none

/-- The numeral of a character is read back. -/
theorem read_hexPadded (width : Nat) (hwidth : 0 < width) {c : Point} (h : c.toNat < 16 ^ width)
    (x : List Point) :
    Point.ofNat (hexValue ((hexPadded width c.toNat ++ x).take width)) = c ∧
      (hexPadded width c.toNat ++ x).drop width = x := by
  have hlength := length_hexPadded hwidth h
  rw [List.take_append_of_le_length hlength.ge, List.take_of_length_le hlength.le,
    List.drop_append_of_le_length hlength.ge, List.drop_of_length_le hlength.le,
    hexValue_hexPadded, Point.ofNat_toNat]
  exact ⟨rfl, rfl⟩

/-- The escape of an unprintable character is read back. -/
theorem readQuoted_codePointEscape (c : Point) (x : List Point) :
    readQuoted (codePointEscape c ++ x) = some (c, x) := by
  unfold codePointEscape
  split
  · next h =>
    obtain ⟨hchar, hrest⟩ := read_hexPadded 2 (by decide) (c := c) (by omega) x
    rw [List.cons_append, List.cons_append, readQuoted, hchar, hrest]
  · split
    · next h =>
      obtain ⟨hchar, hrest⟩ := read_hexPadded 4 (by decide) (c := c) (by omega) x
      rw [List.cons_append, List.cons_append, readQuoted, hchar, hrest]
    · have hbound : c.toNat < 16 ^ 8 := Nat.lt_of_lt_of_le c.toNat_lt (by decide)
      obtain ⟨hchar, hrest⟩ := read_hexPadded 8 (by decide) hbound x
      rw [List.cons_append, List.cons_append, readQuoted, hchar, hrest]

theorem readQuoted_cons {c : Point} (h : c ≠ '\\') (x : List Point) :
    readQuoted (c :: x) = some (c, x) := by
  unfold readQuoted
  split <;> simp_all

/-- The two characters that delimit texts. -/
def IsDelimiter (c : Point) : Prop :=
  c = '\'' ∨ c = '"'

/-- Every character between quotes is read back. -/
theorem readQuoted_quotedChar {delimiter : Point} (h : IsDelimiter delimiter) (c : Point)
    (x : List Point) : readQuoted (quotedChar delimiter c ++ x) = some (c, x) := by
  unfold quotedChar
  split
  · next hescaped =>
    rw [Bool.or_eq_true, beq_iff_eq, beq_iff_eq] at hescaped
    -- The backslash and the delimiter stand behind a backslash, and neither is one of the letters.
    rcases hescaped with rfl | rfl
    · rfl
    · rcases h with rfl | rfl <;> rfl
  · next hescaped =>
    split
    · next hc => rw [beq_iff_eq.1 hc]; rfl
    split
    · next hc => rw [beq_iff_eq.1 hc]; rfl
    split
    · next hc => rw [beq_iff_eq.1 hc]; rfl
    split
    · exact readQuoted_cons (by rintro rfl; simp at hescaped) x
    · exact readQuoted_codePointEscape c x

theorem exists_codePointEscape (c : Point) : ∃ rest, codePointEscape c = .char '\\' :: rest := by
  unfold codePointEscape
  repeat' split
  all_goals exact ⟨_, rfl⟩

/-- What stands between quotes can be read back. -/
theorem prefixCode_quotedChar {delimiter : Point} (h : IsDelimiter delimiter) :
    PrefixCode (quotedChar delimiter) delimiter where
  starts c := by
    have hbackslash : '\\' ≠ delimiter := by rcases h with rfl | rfl <;> decide
    unfold quotedChar
    split
    · exact ⟨_, _, rfl, hbackslash⟩
    · next hescaped =>
      have hne : c ≠ delimiter := by rintro rfl; simp at hescaped
      obtain ⟨rest, hrest⟩ := exists_codePointEscape c
      rw [hrest]
      repeat' split
      all_goals first | exact ⟨_, _, rfl, hbackslash⟩ | exact ⟨_, _, rfl, hne⟩
  apart {c d x y} heq := by
    have hread := congrArg readQuoted heq
    rw [readQuoted_quotedChar h, readQuoted_quotedChar h] at hread
    exact Prod.mk.inj (Option.some.inj hread)

/-- The delimiter of a text is one of the two. -/
theorem isDelimiter_delimiterFor (cs : List Point) : IsDelimiter (delimiterFor cs) := by
  unfold delimiterFor
  split
  · exact Or.inr rfl
  · exact Or.inl rfl

/-- **Names in messages.**  A quoted text tells the text. -/
theorem quoted_injective : Function.Injective quoted := by
  intro s t h
  have hchars := congrArg Text.toList h
  simp only [quoted, Text.toList_ofList, List.cons_append, List.cons.injEq] at hchars
  obtain ⟨hdelimiter, hbody⟩ := hchars
  -- Both texts have the same delimiter, so what is between is written in one code.
  rw [hdelimiter] at hbody
  have hcode := prefixCode_quotedChar (isDelimiter_delimiterFor t.toList)
  exact Text.toList_inj.1 (hcode.cut hbody).1

end SchemaCodecs.Text
