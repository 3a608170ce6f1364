/-
# Shortest decimals

The fewest decimal digits from which a binary number can be read back, and the text made of them.
All tests are exact: the reals that round to `m * 2 ^ q` form an interval between two ratios, and a
decimal belongs to it or not.
-/
import SchemaCodecs.Number.Binary64

namespace SchemaCodecs.Number

/-! ## The interval of a number -/

/-- A positive number `significand * 2 ^ scale` as a ratio, with the two ends of the interval of
reals that round to it over the same denominator. -/
structure RoundingInterval where
  /-- The lower end, the number and the upper end, as numerators. -/
  low : Nat
  /-- The numerator of the number itself. -/
  mid : Nat
  /-- The numerator of the upper end. -/
  high : Nat
  /-- The common denominator. -/
  den : Nat
  /-- Whether the ends belong to the interval: a tie goes to an even significand. -/
  closed : Bool

/-- The rounding interval of a finite number other than zero.  Below a power of two the neighbours
are half as far apart. -/
def RoundingInterval.of (x : Binary64) : RoundingInterval :=
  let m := x.significand
  let q := x.scale - 2
  let up := Nat.pow 2 q.toNat
  let narrow := m == Nat.pow 2 52 && x.scale > -1074
  { low := (4 * m - if narrow then 1 else 2) * up
    mid := 4 * m * up
    high := (4 * m + 2) * up
    den := Nat.pow 2 (-q).toNat
    closed := m % 2 == 0 }

/-- Whether `digits * 10 ^ power` lies in the interval. -/
def RoundingInterval.holds (interval : RoundingInterval) (digits : Nat) (power : Int) : Bool :=
  let value := digits * Nat.pow 10 power.toNat * interval.den
  let unit := Nat.pow 10 (-power).toNat
  if interval.closed then interval.low * unit ≤ value && value ≤ interval.high * unit
  else interval.low * unit < value && value < interval.high * unit

/-! ## The digits -/

/-- The exponent of the leading decimal digit of the ratio `num / den`. -/
def leadingExponent (num den : Nat) : Int :=
  if den ≤ num then ((Point.digits 10 (num / den)).length : Int) - 1
  else
    let zeros := (Point.digits 10 (den / num)).length
    if den ≤ num * Nat.pow 10 (zeros - 1) then -((zeros - 1 : Nat) : Int) else -(zeros : Int)

/-- The decimal with `power` as its last place that reads back: of the two neighbours of the number
on this grid, the nearer one, if it lies in the interval, else the other. -/
def decimalAt? (interval : RoundingInterval) (power : Int) : Option Nat :=
  let num := interval.mid * Nat.pow 10 (-power).toNat
  let den := interval.den * Nat.pow 10 power.toNat
  let below := num / den
  let twice := 2 * (num % den)
  let upward := twice > den || (twice == den && below % 2 == 1)
  let nearer := if upward then below + 1 else below
  let farther := if upward then below else below + 1
  if interval.holds nearer power then some nearer
  else if interval.holds farther power then some farther
  else none

/-- The first of the grids with `count`, `count + 1`, … digits on which a decimal reads back. -/
def firstDecimal (interval : RoundingInterval) (leading : Int) : Nat → Nat → Nat × Int
  | _, 0 => (0, 0)
  | count, fuel + 1 =>
    let power := leading - count + 1
    match decimalAt? interval power with
    | some digits => (digits, power)
    | none => firstDecimal interval leading (count + 1) fuel

/-- The shortest decimal `digits * 10 ^ power` that reads back as the magnitude of a finite number
other than zero; seventeen digits always suffice. -/
def shortestDecimal (x : Binary64) : Nat × Int :=
  let interval := RoundingInterval.of x
  firstDecimal interval (leadingExponent interval.mid interval.den) 1 17

/-! ## The text -/

/-- The exponents of the leading digit for which a number is written without an exponent. -/
def positionalExponents : Int × Int :=
  (-4, 15)

/-- An exponent with its sign and at least two digits. -/
def exponentText (e : Int) : List Point :=
  let digits := Point.digits 10 e.natAbs
  (if e < 0 then '-' else '+') :: (if digits.length < 2 then .char '0' :: digits else digits)

/-- The digits of a decimal without trailing zeros; they begin at the exponent `leading`. -/
def layOut (digits : List Point) (leading : Int) : List Point :=
  if positionalExponents.1 ≤ leading && leading ≤ positionalExponents.2 then
    if leading < 0 then
      Point.char '0' :: .char '.' :: List.replicate (-leading - 1).toNat (.char '0') ++ digits
    else
      let whole := digits.take (leading.toNat + 1)
      let padded := whole ++ List.replicate (leading.toNat + 1 - whole.length) (.char '0')
      match digits.drop (leading.toNat + 1) with
      | [] => padded ++ [.char '.', .char '0']
      | fraction => padded ++ .char '.' :: fraction
  else
    match digits with
    | [] => []
    | [d] => d :: .char 'e' :: exponentText leading
    | d :: fraction => d :: .char '.' :: fraction ++ .char 'e' :: exponentText leading

/-- A number as text: the shortest digits that read back, with an exponent outside the positional
range. -/
def Binary64.text (x : Binary64) : Text :=
  if x.isNaN then "nan"
  else
    let body :=
      if x.isInfinite then [.char 'i', .char 'n', .char 'f']
      else if x.isZero then [.char '0', .char '.', .char '0']
      else
        let (n, power) := shortestDecimal x
        let all := Point.digits 10 n
        let digits := (all.reverse.dropWhile (· == .char '0')).reverse
        layOut digits (power + all.length - 1)
    Text.ofList (if x.isNegative then .char '-' :: body else body)

end SchemaCodecs.Number
