/-
# Blanks and decimal digits

Two properties of characters that reading a number depends on: which characters may surround it
and which characters are decimal digits.  Both reach beyond ASCII.
-/
import SchemaCodecs.Text.Basic

namespace SchemaCodecs.Text

/-! ## Blanks -/

/-- The white space above ASCII, as inclusive ranges of code points. -/
def wideBlanks : List (Nat × Nat) :=
  [(0x85, 0x85), (0xa0, 0xa0), (0x1680, 0x1680), (0x2000, 0x200a), (0x2028, 0x2029),
   (0x202f, 0x202f), (0x205f, 0x205f), (0x3000, 0x3000)]

/-- A character that may stand around a number: tabulator to carriage return, the space, and the
white space above ASCII. -/
def isBlank (c : Point) : Bool :=
  (0x09 ≤ c.toNat && c.toNat ≤ 0x0d) || c == ' ' ||
    wideBlanks.any fun range => range.1 ≤ c.toNat && c.toNat ≤ range.2

/-- A text without the blanks at its two ends. -/
def trimBlanks (cs : List Point) : List Point :=
  ((cs.dropWhile isBlank).reverse.dropWhile isBlank).reverse

/-! ## Decimal digits -/

/-- The code points of the digit zero in every script with a set of decimal digits; the other nine
digits follow each of them. -/
def zeroDigits : List Nat :=
  [0x30, 0x660, 0x6f0, 0x7c0, 0x966, 0x9e6, 0xa66, 0xae6, 0xb66, 0xbe6, 0xc66, 0xce6, 0xd66,
   0xde6, 0xe50, 0xed0, 0xf20, 0x1040, 0x1090, 0x17e0, 0x1810, 0x1946, 0x19d0, 0x1a80, 0x1a90,
   0x1b50, 0x1bb0, 0x1c40, 0x1c50, 0xa620, 0xa8d0, 0xa900, 0xa9d0, 0xa9f0, 0xaa50, 0xabf0, 0xff10,
   0x104a0, 0x10d30, 0x11066, 0x110f0, 0x11136, 0x111d0, 0x112f0, 0x11450, 0x114d0, 0x11650,
   0x116c0, 0x11730, 0x118e0, 0x11950, 0x11c50, 0x11d50, 0x11da0, 0x16a60, 0x16ac0, 0x16b50,
   0x1d7ce, 0x1d7d8, 0x1d7e2, 0x1d7ec, 0x1d7f6, 0x1e140, 0x1e2f0, 0x1e950, 0x1fbf0]

/-- The value of a decimal digit of any script. -/
def digitValue? (c : Point) : Option Nat :=
  (zeroDigits.find? fun start => start ≤ c.toNat && c.toNat < start + 10).map (c.toNat - ·)

/-- A decimal digit of any script as the digit of ASCII; any other character as it is. -/
def asciiDigit (c : Point) : Point :=
  match digitValue? c with
  | some n => Point.ofNat ('0'.toNat + n)
  | none => c

end SchemaCodecs.Text
