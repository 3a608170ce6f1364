/-
# Tags of a YAML text

The types a node can have, by their full names, and the type that the text of a plain scalar
suggests: words for truth values and the absent value, numbers in several notations, dates.  A line
feed at the end of a text does not count.
-/
import SchemaCodecs.Text.Segment

namespace SchemaCodecs.Yaml

open Text

/-! ## Tags -/

/-- The type of a node. -/
inductive Tag where
  /-- The absent value. -/
  | null
  /-- A truth value. -/
  | bool
  /-- An integer. -/
  | int
  /-- A number with a fraction. -/
  | float
  /-- A day or a point in time. -/
  | timestamp
  /-- A text. -/
  | text
  /-- Bytes, written in base 64. -/
  | binary
  /-- A sequence. -/
  | sequence
  /-- A mapping. -/
  | mapping
  /-- A set: a mapping of which only the keys count. -/
  | set
  /-- Pairs: a sequence of mappings with one entry each. -/
  | pairs
  /-- As a key: the entries of other mappings are taken over. -/
  | merge
  /-- As a key: the value that stands for the whole mapping. -/
  | value
  /-- A type without a reading. -/
  | other
  deriving DecidableEq, Inhabited

/-- The types with their full names. -/
def Tag.names : List (Text × Tag) :=
  [("tag:yaml.org,2002:null", .null), ("tag:yaml.org,2002:bool", .bool),
   ("tag:yaml.org,2002:int", .int), ("tag:yaml.org,2002:float", .float),
   ("tag:yaml.org,2002:timestamp", .timestamp), ("tag:yaml.org,2002:str", .text),
   ("tag:yaml.org,2002:binary", .binary), ("tag:yaml.org,2002:seq", .sequence),
   ("tag:yaml.org,2002:map", .mapping), ("tag:yaml.org,2002:set", .set),
   ("tag:yaml.org,2002:omap", .pairs), ("tag:yaml.org,2002:pairs", .pairs),
   ("tag:yaml.org,2002:merge", .merge), ("tag:yaml.org,2002:value", .value)]

/-- The type with a full name. -/
def Tag.ofName (name : Text) : Tag :=
  (Tag.names.lookup name).getD .other

/-! ## Words -/

/-- The words for truth values, each in lower case, capitalised and in upper case. -/
def boolWords : List Text :=
  ["yes", "Yes", "YES", "no", "No", "NO", "true", "True", "TRUE", "false", "False", "FALSE",
   "on", "On", "ON", "off", "Off", "OFF"]

/-- The words for the absent value. -/
def nullWords : List Text :=
  ["~", "null", "Null", "NULL", ""]

/-! ## Numbers -/

/-- A decimal digit of ASCII or an underscore. -/
def isDigitOrMark (c : Point) : Bool :=
  c.isDigit || c == '_'

/-- A text without one sign at its front. -/
def dropSign : List Point → List Point
  | '-' :: rest => rest
  | '+' :: rest => rest
  | cs => cs

/-- Whether a text is a digit with the given property, then digits and underscores. -/
def isDigitRun (first : Point → Bool) : List Point → Bool
  | [] => false
  | c :: rest => first c && rest.all isDigitOrMark

/-- Whether a text is a number of minutes or seconds: a digit, or two of which the first is below
six. -/
def isSixtieth : List Point → Bool
  | [c] => c.isDigit
  | [c, d] => '0' ≤ c && c ≤ '5' && d.isDigit
  | _ => false

/-- Whether a text is a run of digits and one or more groups after colons. -/
def isBase60 (first : Point → Bool) (cs : List Point) : Bool :=
  match segments ':' cs with
  | leading :: group :: groups => isDigitRun first leading && (group :: groups).all isSixtieth
  | _ => false

/-- Whether a text is not empty and has only characters with a property. -/
def isRun (p : Point → Bool) (cs : List Point) : Bool :=
  !cs.isEmpty && cs.all p

/-- A hexadecimal digit. -/
def isHexDigit (c : Point) : Bool :=
  c.isDigit || ('a' ≤ c && c ≤ 'f') || ('A' ≤ c && c ≤ 'F')

/-- A decimal digit other than zero. -/
def isPositiveDigit (c : Point) : Bool :=
  '1' ≤ c && c ≤ '9'

/-- Whether a text is an integer: binary, octal, decimal, hexadecimal or in base sixty. -/
def isIntText (cs : List Point) : Bool :=
  let body := dropSign cs
  let prefixed := match body with
    | '0' :: 'b' :: rest => isRun (fun c => c == '0' || c == '1' || c == '_') rest
    | '0' :: 'x' :: rest => isRun (fun c => isHexDigit c || c == '_') rest
    | '0' :: rest => rest.all fun c => ('0' ≤ c && c ≤ '7') || c == '_'
    | _ => false
  prefixed || isDigitRun isPositiveDigit body || isBase60 isPositiveDigit body

/-- Whether a text is a signed exponent, or nothing. -/
def isExponent : List Point → Bool
  | [] => true
  | e :: sign :: digits =>
    (e == 'e' || e == 'E') && (sign == '-' || sign == '+') && isRun Point.isDigit digits
  | _ => false

/-- Whether a text is digits and underscores with an exponent that may follow. -/
def isFraction (cs : List Point) : Bool :=
  isExponent (cs.dropWhile isDigitOrMark)

/-- Whether a text is a number with a fraction, infinite, or no number. -/
def isFloatText (cs : List Point) : Bool :=
  let body := dropSign cs
  let decimal := match cutFirst '.' body with
    | (whole, some fraction) =>
      (isDigitRun Point.isDigit whole && isFraction fraction) ||
        (isBase60 Point.isDigit whole && fraction.all isDigitOrMark)
    | _ => false
  let fractional := match cs with
    | '.' :: d :: rest => d.isDigit && isFraction rest
    | _ => false
  let infinite := ([".inf", ".Inf", ".INF"] : List Text).contains (Text.ofList body)
  decimal || fractional || infinite || ([".nan", ".NaN", ".NAN"] : List Text).contains (Text.ofList cs)

/-! ## Dates -/

/-- The parts of a date or a point in time as they are written. -/
structure DateText where
  /-- Year, month and day. -/
  day : List Point × List Point × List Point
  /-- Hour, minute, second and fraction. -/
  time : Option (List Point × List Point × List Point × List Point)
  /-- Sign, hours and minutes of the distance from universal time; no sign for none. -/
  zone : Option (Option Point × List Point × List Point)

/-- Some digits at the front, at least as many as the first number says and at most as many as the
second, and the rest. -/
def takeDigits? (least most : Nat) (cs : List Point) : Option (List Point × List Point) :=
  let digits := (cs.take most).takeWhile Point.isDigit
  if digits.length < least then none else some (digits, cs.drop digits.length)

/-- A character at the front, and the rest. -/
def takeChar? (c : Point) : List Point → Option (List Point)
  | d :: rest => if d == c then some rest else none
  | [] => none

/-- The distance from universal time that makes up a text. -/
def zoneText? (cs : List Point) : Option (Option (Option Point × List Point × List Point)) := do
  let rest := cs.dropWhile fun c : Point => c == ' ' || c == '\t'
  match rest with
  | [] => if cs.isEmpty then some none else none
  | ['Z'] => some (some (none, [], []))
  | sign :: rest =>
    if sign != '-' && sign != '+' then none
    let (hours, rest) ← takeDigits? 1 2 rest
    match rest with
    | [] => some (some (some sign, hours, []))
    | _ =>
      let (minutes, rest) ← takeDigits? 2 2 (← takeChar? ':' rest)
      if rest.isEmpty then some (some (some sign, hours, minutes)) else none

/-- The parts of the date or point in time that makes up a text. -/
def dateText? (cs : List Point) : Option DateText := do
  let (year, rest) ← takeDigits? 4 4 cs
  let (month, rest) ← takeDigits? 1 2 (← takeChar? '-' rest)
  let (day, rest) ← takeDigits? 1 2 (← takeChar? '-' rest)
  match rest with
  | [] => return ⟨(year, month, day), none, none⟩
  | c :: after =>
    let rest ←
      if c == 'T' || c == 't' then some after
      else if c == ' ' || c == '\t' then some (rest.dropWhile fun c : Point => c == ' ' || c == '\t')
      else none
    let (hour, rest) ← takeDigits? 1 2 rest
    let (minute, rest) ← takeDigits? 2 2 (← takeChar? ':' rest)
    let (second, rest) ← takeDigits? 2 2 (← takeChar? ':' rest)
    let (fraction, rest) := match rest with
      | '.' :: rest => (rest.takeWhile Point.isDigit, rest.dropWhile Point.isDigit)
      | _ => ([], rest)
    return ⟨(year, month, day), some (hour, minute, second, fraction), ← zoneText? rest⟩

/-- Whether a plain scalar is a date or a point in time; a date alone has two digits for month and
day. -/
def isDateText (cs : List Point) : Bool :=
  match dateText? cs with
  | some ⟨(_, month, day), none, _⟩ => month.length == 2 && day.length == 2
  | some _ => true
  | none => false

/-! ## Plain scalars -/

/-- A text without a line feed at its end; a line feed alone stays. -/
def dropLineFeed (cs : List Point) : List Point :=
  match cs.reverse with
  | '\n' :: c :: rest => (c :: rest).reverse
  | _ => cs

/-- The signs that suggest a type without a reading when they stand alone. -/
def reservedSigns : List Text :=
  ["!", "&", "*"]

/-- The type that the text of a plain scalar suggests. -/
def Tag.ofText (s : Text) : Tag :=
  let cs := dropLineFeed s.toList
  let s := Text.ofList cs
  if boolWords.contains s then .bool
  else if isFloatText cs then .float
  else if isIntText cs then .int
  else if s == "<<" then .merge
  else if nullWords.contains s then .null
  else if isDateText cs then .timestamp
  else if s == "=" then .value
  else if reservedSigns.contains s then .other
  else .text

end SchemaCodecs.Yaml
