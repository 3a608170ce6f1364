/-
# Reading JSON

A reader of JSON texts.  It also takes the three numbers `NaN`, `Infinity` and `-Infinity`; of
several members with one name the last counts, at the place of the first.  A step returns what is
left of the text, and the length of the whole text bounds the number of nested steps.  Of several
faults the first one in the text counts.
-/
import SchemaCodecs.Number.IntegerText
import SchemaCodecs.Value.Basic

namespace SchemaCodecs.Json

open Number

/-! ## Faults -/

/-- Why a JSON text has no value. -/
inductive ReadFault where
  /-- It is not well formed. -/
  | malformed
  /-- An integer in it has too many digits. -/
  | longNumeral (digits : Nat)
  deriving DecidableEq, Inhabited

/-- A step of reading. -/
abbrev Reading (α : Type) := Except ReadFault α

/-- What has to be there for a text to be well formed. -/
def required {α : Type} : Option α → Reading α
  | some a => .ok a
  | none => .error .malformed

/-! ## Characters -/

/-- A character that may stand between tokens. -/
def isSpace (c : Point) : Bool :=
  c == ' ' || c == '\t' || c == '\n' || c == '\r'

/-- What follows the blanks at the front. -/
def skipSpaces (cs : List Point) : List Point :=
  cs.dropWhile isSpace

/-- The number that a list of hexadecimal digits stands for. -/
def hexNumber? (cs : List Point) : Option Nat :=
  (cs.mapM hexValue?).map (ofDigits 16)

/-! ## Strings -/

/-- The character behind a one-letter escape. -/
def shortEscape? : Point → Option Point
  | '"' => some '"'
  | '\\' => some '\\'
  | '/' => some '/'
  | 'b' => some '\x08'
  | 'f' => some '\x0c'
  | 'n' => some '\n'
  | 'r' => some '\r'
  | 't' => some '\t'
  | _ => none

/-- The number behind the four digits of an escape, and the rest. -/
def unitEscape? : List Point → Option (Nat × List Point)
  | a :: b :: c :: d :: rest => (hexNumber? [a, b, c, d]).map (·, rest)
  | _ => none

/-- The character that two code units make. -/
def charOfPair? (first second : Nat) : Option Point :=
  if 0xD800 ≤ first && first < 0xDC00 && 0xDC00 ≤ second && second < 0xE000 then
    some (Point.ofNat (0x10000 + (first - 0xD800) * 0x400 + (second - 0xDC00)))
  else none

/-- The code point behind an escape by code unit: two units may make one character, and half of a
pair stays a lone surrogate. -/
def unicodeEscape? (cs : List Point) : Option (Point × List Point) := do
  let (first, rest) ← unitEscape? cs
  let second := match rest with
    | '\\' :: 'u' :: more => unitEscape? more
    | _ => none
  match second.bind fun found => (charOfPair? first found.1).map (·, found.2) with
  | some pair => return pair
  | none => return (Point.ofNat first, rest)

/-- A string after its opening quote; `before` holds the characters read so far, last first. -/
def readString (before : List Point) : Nat → List Point → Option (Text × List Point)
  | 0, _ => none
  | _ + 1, [] => none
  | _ + 1, '"' :: rest => some (Text.ofList before.reverse, rest)
  | fuel + 1, '\\' :: 'u' :: rest =>
    match unicodeEscape? rest with
    | some (c, rest') => readString (c :: before) fuel rest'
    | none => none
  | fuel + 1, '\\' :: c :: rest =>
    match shortEscape? c with
    | some d => readString (d :: before) fuel rest
    | none => none
  | fuel + 1, c :: rest => if c.toNat < 0x20 then none else readString (c :: before) fuel rest

/-! ## Numbers -/

/-- The digits at the front and the rest. -/
def takeDigits (cs : List Point) : List Point × List Point :=
  cs.span Point.isDigit

/-- The number that a run of ASCII digits stands for. -/
def digitsNumber (cs : List Point) : Nat :=
  ofDigits 10 (cs.map fun c => c.toNat - '0'.toNat)

/-- The fraction at the front, if there is one: its digits and the rest. -/
def takeFraction (cs : List Point) : List Point × List Point :=
  match cs with
  | '.' :: rest =>
    match takeDigits rest with
    | ([], _) => ([], cs)
    | found => found
  | _ => ([], cs)

/-- The exponent at the front, if there is one: its value and the rest. -/
def takeExponent (cs : List Point) : Option Int × List Point :=
  match cs with
  | e :: rest =>
    if e == 'e' || e == 'E' then
      let (negative, digits) :=
        match rest with
        | '-' :: rest' => (true, rest')
        | '+' :: rest' => (false, rest')
        | _ => (false, rest)
      match takeDigits digits with
      | ([], _) => (none, cs)
      | (found, rest') =>
        let n : Int := digitsNumber found
        (some (if negative then -n else n), rest')
    else (none, cs)
  | [] => (none, cs)

/-- The unsigned number at the front and the rest; a fraction or an exponent makes it a float. -/
def readNumber (negative : Bool) (cs : List Point) : Reading (Scalar × List Point) :=
  match takeDigits cs with
  | ([], _) => .error .malformed
  | ('0' :: _ :: _, _) => .ok (.int 0, cs.drop 1)
  | (whole, rest) =>
    let (fraction, rest') := takeFraction rest
    let (exponent, rest'') := takeExponent rest'
    if fraction.isEmpty && exponent.isNone then
      if digitLimit < whole.length then .error (.longNumeral whole.length)
      else
        let n : Int := digitsNumber whole
        .ok (.int (if negative then -n else n), rest)
    else
      let digits := digitsNumber (whole ++ fraction)
      .ok (.float (.ofDecimal negative digits (exponent.getD 0 - fraction.length)), rest'')

/-- The words that stand for values. -/
def words : List (Text × Scalar) :=
  [("null", .null), ("true", .bool true), ("false", .bool false), ("NaN", .notANumber .jsonWord),
   ("Infinity", .float .infinity), ("-Infinity", .float Binary64.infinity.negate)]

/-- The scalar other than a string at the front and the rest. -/
def readScalar (cs : List Point) : Reading (Scalar × List Point) :=
  match words.find? fun word => word.1.toList.isPrefixOf cs with
  | some (word, s) => .ok (s, cs.drop word.length)
  | none =>
    match cs with
    | '-' :: rest => readNumber true rest
    | _ => readNumber false cs

/-! ## Values -/

mutual

/-- The value at the front and the rest. -/
def readValue : Nat → List Point → Reading (Value × List Point)
  | 0, _ => .error .malformed
  | fuel + 1, cs =>
    match cs with
    | '"' :: rest => do
      let (s, rest) ← required (readString [] (fuel + 1) rest)
      return (.text s, rest)
    | '[' :: rest =>
      match skipSpaces rest with
      | ']' :: rest => .ok (.sequence [], rest)
      | rest => do
        let (items, rest) ← readItems fuel rest
        return (.sequence items, rest)
    | '\x7b' :: rest =>
      match skipSpaces rest with
      | '\x7d' :: rest => .ok (.table [], rest)
      | rest => do
        let (members, rest) ← readMembers fuel rest
        return (.table (Entries.ofPairs members), rest)
    | _ => do
      let (s, rest) ← readScalar cs
      return (.scalar s, rest)

/-- The items of an array up to its closing bracket. -/
def readItems : Nat → List Point → Reading (List Value × List Point)
  | 0, _ => .error .malformed
  | fuel + 1, cs => do
    let (item, rest) ← readValue fuel cs
    match skipSpaces rest with
    | ']' :: rest => return ([item], rest)
    | ',' :: rest =>
      let (items, rest) ← readItems fuel (skipSpaces rest)
      return (item :: items, rest)
    | _ => throw .malformed

/-- The members of an object up to its closing brace. -/
def readMembers : Nat → List Point → Reading (List (Scalar × Value) × List Point)
  | 0, _ => .error .malformed
  | fuel + 1, cs => do
    match cs with
    | '"' :: rest =>
      let (name, rest) ← required (readString [] (fuel + 1) rest)
      match skipSpaces rest with
      | ':' :: rest =>
        let (value, rest) ← readValue fuel (skipSpaces rest)
        match skipSpaces rest with
        | '\x7d' :: rest => return ([(.text name, value)], rest)
        | ',' :: rest =>
          let (members, rest) ← readMembers fuel (skipSpaces rest)
          return ((.text name, value) :: members, rest)
        | _ => throw .malformed
      | _ => throw .malformed
    | _ => throw .malformed

end

/-- The value that a JSON text stands for. -/
def read (s : Text) : Reading Value := do
  let cs := s.toList
  let (v, rest) ← readValue (cs.length + 1) (skipSpaces cs)
  if (skipSpaces rest).isEmpty then return v else throw .malformed

end SchemaCodecs.Json
