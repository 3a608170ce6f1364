/-
# Reading integers

The integers a text may stand for: digits of any script with single underscores between them, an
optional sign, and blanks around the whole.  In a base other than ten the mark of the base may stand
before the digits.  A decimal numeral may have at most 4300 digits, for reading and for writing: the
work grows with the square of their number.
-/
import SchemaCodecs.Text.Blank

namespace SchemaCodecs.Number

open Text

/-! ## Digits -/

/-- The value of a run of digits in a base, most significant first. -/
def ofDigits (base : Nat) (digits : List Nat) : Nat :=
  digits.foldl (fun n digit => n * base + digit) 0

/-- The value of a hexadecimal digit. -/
def hexValue? (c : Point) : Option Nat :=
  if '0' ≤ c && c ≤ '9' then some (c.toNat - '0'.toNat)
  else if 'a' ≤ c && c ≤ 'f' then some (c.toNat - 'a'.toNat + 10)
  else if 'A' ≤ c && c ≤ 'F' then some (c.toNat - 'A'.toNat + 10)
  else none

/-- The value of a digit in a base up to sixteen. -/
def digitInBase? (base : Nat) (c : Point) : Option Nat :=
  (hexValue? c).filter (· < base)

/-- The digit values of a run of digits in which single underscores may stand between digits. -/
def groupedDigits? (base : Nat) : List Point → Option (List Nat)
  | [] => none
  | [c] => (digitInBase? base c).map ([·])
  | c :: '_' :: rest => do return (← digitInBase? base c) :: (← groupedDigits? base rest)
  | c :: rest => do return (← digitInBase? base c) :: (← groupedDigits? base rest)

/-! ## The limit -/

/-- The largest number of digits of a decimal numeral. -/
def digitLimit : Nat := 4300

/-- Whether an integer can be written as a decimal numeral. -/
def isWritable (n : Int) : Bool :=
  n.natAbs < Nat.pow 10 digitLimit

/-! ## Reading -/

/-- Why a text stands for no integer. -/
inductive IntegerFault where
  /-- It is no numeral. -/
  | malformed
  /-- It has too many digits. -/
  | tooLong (digits : Nat)
  deriving DecidableEq, Inhabited

/-- The letter that marks a base other than ten. -/
def baseMark? : Nat → Option Point
  | 2 => some 'b'
  | 8 => some 'o'
  | 16 => some 'x'
  | _ => none

/-- A text without the mark of a base, and without an underscore behind the mark. -/
def dropBaseMark (base : Nat) : List Point → List Point
  | '0' :: c :: rest =>
    if baseMark? base == some c.toLower then
      match rest with
      | '_' :: rest => rest
      | rest => rest
    else .char '0' :: c :: rest
  | cs => cs

/-- The natural number that an unsigned text in ASCII digits stands for.  That its digits are too
many is found out before what follows them is looked at. -/
def naturalInBase (base : Nat) (cs : List Point) : Except IntegerFault Nat :=
  let isPart (c : Point) : Bool := c == '_' || (digitInBase? base c).isSome
  let cs := dropBaseMark base cs
  match groupedDigits? base (cs.takeWhile isPart) with
  | none => .error .malformed
  | some digits =>
    if base = 10 ∧ digitLimit < digits.length then .error (.tooLong digits.length)
    else if (cs.dropWhile isPart).isEmpty then .ok (ofDigits base digits)
    else .error .malformed

/-- The integer that a text stands for in a base. -/
def integerInBase (base : Nat) (cs : List Point) : Except IntegerFault Int :=
  match (trimBlanks cs).map asciiDigit with
  | '-' :: rest => (naturalInBase base rest).map fun n => -(n : Int)
  | '+' :: rest => (naturalInBase base rest).map Int.ofNat
  | rest => (naturalInBase base rest).map Int.ofNat

/-- The decimal integer that a text stands for, if any. -/
def integerOfText? (cs : List Point) : Option Int :=
  (integerInBase 10 cs).toOption

end SchemaCodecs.Number
