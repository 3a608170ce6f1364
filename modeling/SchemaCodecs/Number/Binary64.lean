/-
# Binary floating-point numbers

The 64-bit binary numbers in which documents keep fractions.  A finite number is a natural number
below `2 ^ 53` times a power of two; a ratio of two natural numbers is rounded to the nearest such
number, a tie going to the even multiple.
-/
import SchemaCodecs.Text.Basic

namespace SchemaCodecs.Number

/-! ## The type and its parts -/

/-- A 64-bit binary floating-point number, given by its bits: the sign, eleven bits of exponent and
fifty-two bits of fraction. -/
structure Binary64 where
  /-- The sixty-four bits. -/
  bits : UInt64
  deriving DecidableEq, Inhabited

namespace Binary64

/-- Whether the sign bit is set. -/
def isNegative (x : Binary64) : Bool :=
  x.bits.toNat ≥ Nat.pow 2 63

/-- The exponent and fraction bits as one number. -/
def magnitudeBits (x : Binary64) : Nat :=
  x.bits.toNat % Nat.pow 2 63

/-- The bits of the infinite magnitude. -/
def infiniteBits : Nat :=
  2047 * Nat.pow 2 52

/-- Whether the bits denote no number. -/
def isNaN (x : Binary64) : Bool :=
  x.magnitudeBits > infiniteBits

/-- Whether the number is one of the two infinities. -/
def isInfinite (x : Binary64) : Bool :=
  x.magnitudeBits == infiniteBits

/-- The natural number `m` in the magnitude `m * 2 ^ q` of a finite number. -/
def significand (x : Binary64) : Nat :=
  if x.magnitudeBits / Nat.pow 2 52 = 0 then x.magnitudeBits
  else Nat.pow 2 52 + x.magnitudeBits % Nat.pow 2 52

/-- The integer `q` in the magnitude `m * 2 ^ q` of a finite number. -/
def scale (x : Binary64) : Int :=
  max ((x.magnitudeBits / Nat.pow 2 52 : Nat) : Int) 1 - 1075

/-- The number with the given sign and magnitude bits. -/
def ofBits (negative : Bool) (magnitude : Nat) : Binary64 :=
  ⟨UInt64.ofNat ((if negative then Nat.pow 2 63 else 0) + magnitude)⟩

/-- The positive infinity. -/
def infinity : Binary64 :=
  ofBits false infiniteBits

/-- The number with the opposite sign. -/
def negate (x : Binary64) : Binary64 :=
  ofBits (!x.isNegative) x.magnitudeBits

/-- The integer that a finite number without fractional part equals. -/
def toInt? (x : Binary64) : Option Int :=
  if x.isNaN || x.isInfinite then none
  else
    let signed (n : Nat) : Int := if x.isNegative then -n else n
    if 0 ≤ x.scale then some (signed (x.significand * Nat.pow 2 x.scale.toNat))
    else
      let unit := Nat.pow 2 (-x.scale).toNat
      if x.significand % unit = 0 then some (signed (x.significand / unit)) else none

/-- Whether the number is zero, of either sign. -/
def isZero (x : Binary64) : Bool :=
  x.magnitudeBits == 0

/-! ## Rounding -/

/-- A quotient rounded to the nearest natural number, a tie going to the even one. -/
def roundedQuotient (num den : Nat) : Nat :=
  let quotient := num / den
  let twice := 2 * (num % den)
  if twice > den || (twice == den && quotient % 2 == 1) then quotient + 1 else quotient

/-- The quotient of `num` and `den * 2 ^ q`, rounded. -/
def roundedScaled (num den : Nat) (q : Int) : Nat :=
  if 0 ≤ q then roundedQuotient num (den * Nat.pow 2 q.toNat)
  else roundedQuotient (num * Nat.pow 2 (-q).toNat) den

/-- The exponent `q` at which `num / den` has a significand of fifty-three bits, but not below the
smallest exponent of the format. -/
def scaleOfRatio (num den : Nat) : Int :=
  let guess : Int := (Nat.log2 num : Int) - (Nat.log2 den : Int) - 52
  let reaches :=
    if 0 ≤ guess then den * Nat.pow 2 (52 + guess.toNat) ≤ num
    else den * Nat.pow 2 52 ≤ num * Nat.pow 2 (-guess).toNat
  max (if reaches then guess else guess - 1) (-1074)

/-- The number nearest to `num / den`. -/
def ofRatio (negative : Bool) (num den : Nat) : Binary64 :=
  if num = 0 then ofBits negative 0
  else
    let q := scaleOfRatio num den
    let magnitude := (q + 1074).toNat * Nat.pow 2 52 + roundedScaled num den q
    ofBits negative (min magnitude infiniteBits)

/-- The number nearest to `digits * 10 ^ exponent`.  Exponents far beyond the range of the format
are decided by the number of digits alone. -/
def ofDecimal (negative : Bool) (digits : Nat) (exponent : Int) : Binary64 :=
  let size : Int := (Point.digits 10 digits).length
  if digits = 0 || size + exponent < -400 then ofBits negative 0
  else if size + exponent > 400 then ofBits negative infiniteBits
  else if 0 ≤ exponent then ofRatio negative (digits * Nat.pow 10 exponent.toNat) 1
  else ofRatio negative digits (Nat.pow 10 (-exponent).toNat)

end Binary64

end SchemaCodecs.Number
