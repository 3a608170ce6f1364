/-
# Segments of a text

Cutting a text at a separator: the part before and after its first occurrence, the part after its
last one, and the list of all parts.
-/
import SchemaCodecs.Text.Basic

namespace SchemaCodecs.Text

/-- The text before the first separator, and the text after it if there is one. -/
def cutFirst (separator : Point) : List Point → List Point × Option (List Point)
  | [] => ([], none)
  | c :: rest =>
    if c == separator then ([], some rest)
    else
      let (before, after) := cutFirst separator rest
      (c :: before, after)

/-- All parts of a text between separators; a text without a separator is its only part. -/
def segments (separator : Point) : List Point → List (List Point)
  | [] => [[]]
  | c :: rest =>
    if c == separator then [] :: segments separator rest
    else
      match segments separator rest with
      | [] => [[c]]
      | part :: parts => (c :: part) :: parts

/-- The text after the last separator; all of it when there is none. -/
def lastSegment (separator : Point) (cs : List Point) : List Point :=
  (cs.reverse.takeWhile (· != separator)).reverse

/-- A text without the given character at its end. -/
def dropTrailing (c : Point) (cs : List Point) : List Point :=
  (cs.reverse.dropWhile (· == c)).reverse

/-- Texts joined by a separator. -/
def joinWith (separator : Text) : List Text → Text
  | [] => ""
  | [s] => s
  | s :: rest => s ++ separator ++ joinWith separator rest

/-- Whether one list of characters occurs in another without a gap. -/
def occursIn (needle : List Point) : List Point → Bool
  | [] => needle.isEmpty
  | c :: rest => needle.isPrefixOf (c :: rest) || occursIn needle rest

end SchemaCodecs.Text
