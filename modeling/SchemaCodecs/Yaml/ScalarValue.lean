/-
# Values of YAML scalars

The value that the text of a scalar has in its type.  A text that a plain scalar would not have in
the type can still be given it by a tag; then it may have no value.
-/
import SchemaCodecs.Json.Reader
import SchemaCodecs.Text.Base64
import SchemaCodecs.Text.Lowercase
import SchemaCodecs.Yaml.Fault
import SchemaCodecs.Yaml.Tag

namespace SchemaCodecs.Yaml

open Number Text

/-- The fault of a scalar without a value, with its message. -/
def scalarFault {α : Type} (message : Text) : Except Fault α :=
  .error (.invalid (.scalar message))

/-- A text without underscores. -/
def withoutMarks (cs : List Point) : List Point :=
  cs.filter (· != .char '_')

/-- Whether a text begins with a minus, and the text without its sign; there has to be a first
character. -/
def takeSign (cs : List Point) : Except Fault (Bool × List Point) :=
  match cs with
  | [] => .error (.illTyped .emptyText)
  | '-' :: rest => .ok (true, rest)
  | '+' :: rest => .ok (false, rest)
  | _ => .ok (false, cs)

/-! ## Truth values -/

/-- The truth value of a word, in any mixture of cases. -/
def boolOfText (s : Text) : Except Fault Bool :=
  let word := Text.ofList (lowerCase s.toList)
  if word ∈ (["yes", "true", "on"] : List Text) then .ok true
  else if word ∈ (["no", "false", "off"] : List Text) then .ok false
  else .error (.illTyped .unknownWord)

/-! ## Integers -/

/-- The number of characters of a quoted text that a complaint about an integer shows. -/
def quotedLimit : Nat := 200

/-- The complaint that a text stands for no integer in a base. -/
def integerComplaint (base : Nat) (cs : List Point) : Text :=
  let shown := (quoted (Text.ofList cs)).toList.take quotedLimit
  "invalid literal for int() with base " ++ Text.numeral base ++ ": " ++ Text.ofList shown

/-- The integer that a text stands for in a base, or the complaint that it stands for none. -/
def checkedInteger (base : Nat) (cs : List Point) : Except Fault Int :=
  match integerInBase base cs with
  | .ok n => .ok n
  | .error .malformed => scalarFault (integerComplaint base cs)
  | .error (.tooLong digits) => .error (.invalid (.longNumeral digits))

/-- The integer that an unsigned text stands for; it has to have a first character. -/
def unsignedInteger : List Point → Except Fault Int
  | [] => .error (.illTyped .emptyText)
  | ['0'] => .ok 0
  | '0' :: 'b' :: rest => checkedInteger 2 rest
  | '0' :: 'x' :: rest => checkedInteger 16 rest
  | '0' :: rest => checkedInteger 8 (.char '0' :: rest)
  | cs =>
    if cs.contains ':' then do
      let groups ← (segments ':' cs).mapM (checkedInteger 10)
      return groups.foldl (fun n group => n * 60 + group) 0
    else checkedInteger 10 cs

/-- The integer that the text of a scalar stands for. -/
def integerOfScalar (s : Text) : Except Fault Int := do
  let (negative, body) ← takeSign (withoutMarks s.toList)
  let n ← unsignedInteger body
  return if negative then -n else n

/-! ## Numbers with a fraction -/

/-- The number with a fraction that a text stands for, or one in its place that is none. -/
inductive Fractional where
  /-- A number. -/
  | number (x : Binary64)
  /-- No number. -/
  | none
  deriving DecidableEq, Inhabited

/-- The decimal number that makes up a text, without a sign. -/
def decimalNumber? (negative : Bool) (cs : List Point) : Option Fractional :=
  let name := Text.ofList (lowerCase cs)
  if name = "inf" ∨ name = "infinity" then
    some (.number (if negative then Binary64.infinity.negate else .infinity))
  else if name = "nan" then some .none
  else
    let (whole, rest) := Json.takeDigits cs
    let (fraction, rest) := match rest with
      | '.' :: rest => Json.takeDigits rest
      | _ => ([], rest)
    let (exponent, rest) := Json.takeExponent rest
    if (whole.isEmpty && fraction.isEmpty) || !rest.isEmpty then Option.none
    else
      let digits := Json.digitsNumber (whole ++ fraction)
      some (.number (.ofDecimal negative digits (exponent.getD 0 - fraction.length)))

/-- The number that a text stands for, with digits of any script and blanks around it. -/
def numberOfText? (cs : List Point) : Option Fractional :=
  match (trimBlanks cs).map asciiDigit with
  | '-' :: rest => decimalNumber? true rest
  | '+' :: rest => decimalNumber? false rest
  | rest => decimalNumber? false rest

/-- The number that a text stands for, or the complaint that it stands for none. -/
def numberOfText (cs : List Point) : Except Fault Fractional :=
  match numberOfText? cs with
  | some x => .ok x
  | Option.none =>
    scalarFault ("could not convert string to float: " ++ quoted (Text.ofList cs))

/-- A number for computations. -/
def Fractional.toFloat : Fractional → Float
  | number x => Float.ofBits x.bits
  | none => 0.0 / 0.0

/-- The result of a computation. -/
def Fractional.ofFloat (x : Float) : Fractional :=
  let bits : Binary64 := ⟨x.toBits⟩
  if bits.isNaN then none else number bits

/-- The number with the opposite sign. -/
def Fractional.negate : Fractional → Fractional
  | number x => number x.negate
  | none => none

/-- How many groups in base sixty a number can have: the unit of one more could not be computed
with. -/
def groupLimit : Nat := 174

/-- The sum of groups in base sixty, the last one first. -/
def base60Sum (groups : List Fractional) : Except Fault Fractional :=
  if groupLimit < groups.length then .error (.illTyped .tooLarge)
  else
    let sum := groups.foldl
      (fun (total, unit) group => (total + group.toFloat * Float.ofNat unit, unit * 60))
      ((0.0 : Float), 1)
    .ok (.ofFloat sum.1)

/-- The number that an unsigned text stands for; `origin` tells where a value comes from that is
none. -/
def unsignedNumber (body : List Point) : Except Fault Fractional :=
  if body.contains ':' then do base60Sum (← (segments ':' body).mapM numberOfText).reverse
  else numberOfText body

/-- The value of a number that is computed for a node. -/
def Fractional.scalar (origin : NaNOrigin) : Fractional → Scalar
  | number x => .float x
  | none => .notANumber origin

/-- The number that the text of a scalar stands for; `origin` tells where a value comes from that is
computed and no number. -/
def numberOfScalar (origin : NaNOrigin) (s : Text) : Except Fault Scalar := do
  let (negative, body) ← takeSign (lowerCase (withoutMarks s.toList))
  let signed (x : Fractional) : Fractional := if negative then x.negate else x
  if body == (".inf" : Text).toList then return (signed (.number .infinity)).scalar origin
  else if body == (".nan" : Text).toList then return .notANumber .yamlWord
  else return (signed (← unsignedNumber body)).scalar origin

/-! ## Dates -/

/-- A day of the calendar, or the complaint that there is none. -/
def checkedDate (year month day : Nat) : Except Fault Date :=
  if year = 0 then scalarFault "year 0 is out of range"
  else if month = 0 || month > 12 then scalarFault "month must be in 1..12"
  else if day = 0 || day > daysInMonth year month then
    scalarFault "day is out of range for month"
  else .ok ⟨year, month, day⟩

/-- The millionths of a second that a fraction stands for; further digits are dropped. -/
def microseconds (fraction : List Point) : Nat :=
  let digits := fraction.take 6
  Json.digitsNumber (digits ++ List.replicate (6 - digits.length) (.char '0'))

/-- The distance from universal time in minutes; it has to be less than a day. -/
def checkedOffset : Option (Option Point × List Point × List Point) → Except Fault (Option Int)
  | none => .ok none
  | some (none, _, _) => .ok (some 0)
  | some (some sign, hours, minutes) =>
    let distance : Int := Json.digitsNumber hours * 60 + Json.digitsNumber minutes
    let offset := if sign == '-' then -distance else distance
    if distance < 1440 then .ok (some offset)
    else
      scalarFault ("offset must be a timedelta strictly between -timedelta(hours=24) and " ++
        "timedelta(hours=24), not " ++ durationExpression offset ++ ".")

/-- The day or point in time that the text of a scalar stands for. -/
def dateOfScalar (s : Text) : Except Fault Scalar :=
  match dateText? (dropLineFeed s.toList) with
  | none => .error (.illTyped .lacksPart)
  | some ⟨(year, month, day), time, zone⟩ => do
    let number := Json.digitsNumber
    match time with
    | none => return .date (← checkedDate (number year) (number month) (number day))
    | some (hour, minute, second, fraction) =>
      let offset ← checkedOffset zone
      let date ← checkedDate (number year) (number month) (number day)
      if number hour > 23 then scalarFault "hour must be in 0..23"
      if number minute > 59 then scalarFault "minute must be in 0..59"
      if number second > 59 then scalarFault "second must be in 0..59"
      return .time ⟨date, number hour, number minute, number second, microseconds fraction, offset⟩

/-! ## Bytes -/

/-- The bytes that the text of a scalar stands for; only characters of ASCII may occur in it. -/
def bytesOfScalar? (s : Text) : Option (List UInt8) :=
  if s.toList.all fun c => c.toNat < 0x80 then decodeBase64? s.toList else none

/-! ## All scalars -/

/-- A value, or the fault that ends the reading. -/
def asContent : Except Fault Scalar → Reading Scalar
  | .ok s => .ok s
  | .error fault => .error (.content fault)

/-- The value of a scalar with the given type and text; only types of scalars have one.  `origin`
tells where a value comes from that is computed and no number. -/
def scalarValue (origin : NaNOrigin) (tag : Tag) (s : Text) : Reading Scalar :=
  match tag with
  | .null => .ok .null
  | .bool => asContent ((boolOfText s).map .bool)
  | .int => asContent ((integerOfScalar s).map .int)
  | .float => asContent (numberOfScalar origin s)
  | .timestamp => asContent (dateOfScalar s)
  | .text => .ok (.text s)
  | .binary => (required (bytesOfScalar? s)).map .bytes
  | _ => .error .malformed

end SchemaCodecs.Yaml
