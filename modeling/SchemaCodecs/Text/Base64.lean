/-
# Base 64

Bytes written with sixty-four characters, four characters for three bytes.  Characters outside the
alphabet are passed over.  An equals sign counts as padding only behind the second or third
character of a group of four; the padding that completes a group ends the text.
-/
import SchemaCodecs.Text.Basic

namespace SchemaCodecs.Text

/-- The value of a character of the alphabet. -/
def base64Value? (c : Point) : Option Nat :=
  if 'A' ≤ c && c ≤ 'Z' then some (c.toNat - 'A'.toNat)
  else if 'a' ≤ c && c ≤ 'z' then some (c.toNat - 'a'.toNat + 26)
  else if '0' ≤ c && c ≤ '9' then some (c.toNat - '0'.toNat + 52)
  else if c == '+' then some 62
  else if c == '/' then some 63
  else none

/-- What has been read of a text in base 64. -/
structure Base64Group where
  /-- The number of characters in the open group, at most three. -/
  size : Nat := 0
  /-- The bits of the last character that belong to no byte so far. -/
  bits : Nat := 0
  /-- The padding since the last character. -/
  padding : Nat := 0
  /-- The bytes, the last one first. -/
  bytes : List UInt8 := []
  deriving DecidableEq, Inhabited

namespace Base64Group

/-- The group with a byte and the bits that are left after it. -/
def emit (group : Base64Group) (byte bits : Nat) : Base64Group :=
  { size := group.size + 1, bits, bytes := UInt8.ofNat byte :: group.bytes }

/-- The group with one more character, given by its value. -/
def take (group : Base64Group) (value : Nat) : Base64Group :=
  match group.size with
  | 0 => { size := 1, bits := value, bytes := group.bytes }
  | 1 => group.emit (group.bits * 4 + value / 16) (value % 16)
  | 2 => group.emit (group.bits * 16 + value / 4) (value % 4)
  | _ => { bytes := UInt8.ofNat (group.bits * 64 + value) :: group.bytes }

/-- The bytes of a text after what has been read; a group must not be left open. -/
def decode? (group : Base64Group) : List Point → Option (List UInt8)
  | [] => if group.size = 0 then some group.bytes.reverse else none
  | c :: rest =>
    if c == '=' then
      if group.size < 2 then group.decode? rest
      else if group.size + group.padding + 1 < 4 then
        decode? { group with padding := group.padding + 1 } rest
      else some group.bytes.reverse
    else
      match base64Value? c with
      | some value => (group.take value).decode? rest
      | none => group.decode? rest

end Base64Group

/-- The bytes that a text in base 64 stands for. -/
def decodeBase64? (cs : List Point) : Option (List UInt8) :=
  Base64Group.decode? {} cs

end SchemaCodecs.Text
