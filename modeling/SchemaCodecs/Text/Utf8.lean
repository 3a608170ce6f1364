/-
# UTF-8

Reading bytes as characters.  A character is one to four bytes; the first byte decides how many
follow and which ones may follow next.  Bytes that belong to no character are either refused or
replaced, one replacement for as many bytes as could have begun a character.
-/
import SchemaCodecs.Text.Basic

namespace SchemaCodecs.Text

/-! ## First bytes -/

/-- What a first byte says about its character: the bytes that follow, the smallest and the largest
byte that may come next, and its share of the code point. -/
structure LeadByte where
  /-- The number of bytes that follow. -/
  count : Nat
  /-- The smallest byte that may come next. -/
  low : Nat
  /-- The largest byte that may come next. -/
  high : Nat
  /-- The highest bits of the code point. -/
  bits : Nat

/-- What a byte says as the first of a character, if it can be one. -/
def leadByte? (b : Nat) : Option LeadByte :=
  if b < 0x80 then some ⟨0, 0, 0, b⟩
  else if b < 0xc2 then none
  else if b < 0xe0 then some ⟨1, 0x80, 0xbf, b - 0xc0⟩
  else if b < 0xf0 then
    some ⟨2, if b == 0xe0 then 0xa0 else 0x80, if b == 0xed then 0x9f else 0xbf, b - 0xe0⟩
  else if b < 0xf5 then
    some ⟨3, if b == 0xf0 then 0x90 else 0x80, if b == 0xf4 then 0x8f else 0xbf, b - 0xf0⟩
  else none

/-! ## Characters -/

/-- Why no character can be read. -/
inductive Utf8Cause where
  /-- The first byte begins no character. -/
  | start
  /-- A later byte does not continue the character. -/
  | continuation
  /-- The bytes end inside the character. -/
  | ending
  deriving DecidableEq, Inhabited

/-- What stands at the front of some bytes. -/
inductive Utf8Step where
  /-- A character, and the number of its bytes. -/
  | char (c : Point) (length : Nat)
  /-- Bytes that belong to no character: why, and how many. -/
  | invalid (cause : Utf8Cause) (length : Nat)
  deriving Inhabited

/-- Reads the bytes after a first one; `length` bytes have been read, and the next one has to lie
between two bounds. -/
def continueChar (bits low high length : Nat) : Nat → List UInt8 → Utf8Step
  | 0, _ => .char (Point.ofNat bits) length
  | _ + 1, [] => .invalid .ending length
  | count + 1, b :: rest =>
    if low ≤ b.toNat && b.toNat ≤ high then
      continueChar (bits * 64 + (b.toNat - 0x80)) 0x80 0xbf (length + 1) count rest
    else .invalid .continuation length

/-- What stands at the front of some bytes that begin with the given one. -/
def firstChar (b : UInt8) (rest : List UInt8) : Utf8Step :=
  match leadByte? b.toNat with
  | none => .invalid .start 1
  | some lead => continueChar lead.bits lead.low lead.high 1 lead.count rest

/-! ## Texts -/

/-- Bytes that belong to no character. -/
structure Utf8Fault where
  /-- Why they do not. -/
  cause : Utf8Cause
  /-- The position of the first one. -/
  position : Nat
  /-- The bytes. -/
  bytes : List UInt8
  deriving DecidableEq, Inhabited

/-- The characters of some bytes, last first, or the first bytes that belong to none; `skipped`
bytes of a character that has been read come first. -/
def decodeAux (position skipped : Nat) (found : List Point) :
    List UInt8 → Except Utf8Fault (List Point)
  | [] => .ok found
  | b :: rest =>
    match skipped with
    | n + 1 => decodeAux (position + 1) n found rest
    | 0 =>
      match firstChar b rest with
      | .char c length => decodeAux (position + 1) (length - 1) (c :: found) rest
      | .invalid cause length => .error ⟨cause, position, (b :: rest).take length⟩

/-- The text of some bytes, or the first of them that belong to no character. -/
def decodeUtf8 (bytes : List UInt8) : Except Utf8Fault Text :=
  (decodeAux 0 0 [] bytes).map fun found => Text.ofList found.reverse

/-- The characters of some bytes with replacements, last first. -/
def replaceAux (skipped : Nat) (found : List Point) : List UInt8 → List Point
  | [] => found
  | b :: rest =>
    match skipped with
    | n + 1 => replaceAux n found rest
    | 0 =>
      match firstChar b rest with
      | .char c length => replaceAux (length - 1) (c :: found) rest
      | .invalid _ length => replaceAux (length - 1) (.char '\uFFFD' :: found) rest

/-- The text of some bytes with a replacement for those that belong to no character. -/
def decodeUtf8Lossy (bytes : List UInt8) : Text :=
  Text.ofList (replaceAux 0 [] bytes).reverse

/-- The text in front of the bytes that belong to no character. -/
def Utf8Fault.front (fault : Utf8Fault) (bytes : List UInt8) : Text :=
  decodeUtf8Lossy (bytes.take fault.position)

/-! ## Messages -/

/-- Why no character can be read, in words. -/
def Utf8Cause.reason : Utf8Cause → Text
  | start => "invalid start byte"
  | continuation => "invalid continuation byte"
  | ending => "unexpected end of data"

/-- The complaint about bytes that belong to no character: one byte is shown, of several the
positions. -/
def Utf8Fault.message (fault : Utf8Fault) : Text :=
  let place := match fault.bytes with
    | [b] =>
      let digits := Point.digits 16 b.toNat
      let padded := List.replicate (2 - digits.length) (.char '0') ++ digits
      "byte 0x" ++ Text.ofList padded ++ " in position " ++ Text.numeral fault.position
    | bytes =>
      "bytes in position " ++ Text.numeral fault.position ++ "-" ++
        Text.numeral (fault.position + bytes.length - 1)
  "'utf-8' codec can't decode " ++ place ++ ": " ++ fault.cause.reason

/-! ## Line ends -/

/-- A text with every carriage return, alone or before a line feed, read as a line feed. -/
def normalizeLineEnds : List Point → List Point
  | '\r' :: '\n' :: rest => .char '\n' :: normalizeLineEnds rest
  | '\r' :: rest => .char '\n' :: normalizeLineEnds rest
  | c :: rest => c :: normalizeLineEnds rest
  | [] => []

end SchemaCodecs.Text
