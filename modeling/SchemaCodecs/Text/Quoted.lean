/-
# Quoted text

The form in which a message shows a text: between quotes, on one line, with every unprintable
character written as an escape.  The single quote is the delimiter unless the text holds a single
quote and no double quote.  Bytes are shown in the same way behind a letter, those above ASCII as
escapes.
-/
import SchemaCodecs.Text.Printable

namespace SchemaCodecs.Text

/-! ## Hexadecimal numerals -/

/-- The lower-case hexadecimal numeral of a number, padded with zeros to a width. -/
def hexPadded (width n : Nat) : List Point :=
  let digits := Point.digits 16 n
  List.replicate (width - digits.length) (.char '0') ++ digits

/-! ## Escapes -/

/-- The escape of an unprintable character by its code point: two, four or eight hexadecimal
digits. -/
def codePointEscape (c : Point) : List Point :=
  if c.toNat < 0x100 then .char '\\' :: .char 'x' :: hexPadded 2 c.toNat
  else if c.toNat < 0x10000 then .char '\\' :: .char 'u' :: hexPadded 4 c.toNat
  else .char '\\' :: .char 'U' :: hexPadded 8 c.toNat

/-- One character inside quotes of the given kind. -/
def quotedChar (delimiter c : Point) : List Point :=
  if c == '\\' || c == delimiter then ['\\', c]
  else if c == '\n' then [.char '\\', .char 'n']
  else if c == '\r' then [.char '\\', .char 'r']
  else if c == '\t' then [.char '\\', .char 't']
  else if isPrintable c then [c]
  else codePointEscape c

/-- The quote that delimits a text: the double quote when that spares an escape. -/
def delimiterFor (cs : List Point) : Point :=
  if cs.contains '\'' && !cs.contains '"' then '"' else '\''

/-- A text as a message shows it. -/
def quoted (s : Text) : Text :=
  let cs := s.toList
  let delimiter := delimiterFor cs
  Text.ofList (delimiter :: cs.flatMap (quotedChar delimiter) ++ [delimiter])

/-! ## Bytes -/

/-- One byte inside quotes of the given kind. -/
def quotedByte (delimiter : Point) (b : UInt8) : List Point :=
  let c := Point.ofNat b.toNat
  if b < 0x80 then quotedChar delimiter c else codePointEscape c

/-- Bytes as a message shows them. -/
def quotedBytes (bytes : List UInt8) : Text :=
  let delimiter := delimiterFor (bytes.map fun b => Point.ofNat b.toNat)
  Text.ofList (.char 'b' :: delimiter :: bytes.flatMap (quotedByte delimiter) ++ [delimiter])

end SchemaCodecs.Text
