/-
# Positions in a YAML text

A text with a position in it: what is left to read, and the line, column and index reached.  Line
ends are line feeds, next-line characters and the two Unicode separators.
-/
import SchemaCodecs.Text.Basic

namespace SchemaCodecs.Yaml

/-! ## Characters -/

/-- A character that ends a line. -/
def isBreak (c : Point) : Bool :=
  c == '\n' || c == '\x85' || c == '\u2028' || c == '\u2029'

/-- A space, a tabulator or the end of a line. -/
def isGap (c : Point) : Bool :=
  c == ' ' || c == '\t' || isBreak c

/-- A letter, a digit, a hyphen or an underscore of ASCII. -/
def isWordChar (c : Point) : Bool :=
  c.isAlphanum || c == '-' || c == '_'

/-- Whether a text is at its end or at a gap. -/
def atGap : List Point → Bool
  | [] => true
  | c :: _ => isGap c

/-- Whether a text is at its end or at the end of a line. -/
def atLineEnd : List Point → Bool
  | [] => true
  | c :: _ => isBreak c

/-- Whether a text begins with a document marker: three hyphens or three dots before a gap. -/
def atMarker : List Point → Bool
  | '-' :: '-' :: '-' :: rest => atGap rest
  | '.' :: '.' :: '.' :: rest => atGap rest
  | _ => false

/-! ## Cursors -/

/-- A position in a text. -/
structure Cursor where
  /-- What follows the position. -/
  rest : List Point
  /-- The number of line ends before it. -/
  line : Nat := 0
  /-- The number of characters before it on its line. -/
  column : Nat := 0
  /-- The number of characters before it. -/
  index : Nat := 0
  /-- The number of characters after it. -/
  left : Nat := rest.length
  deriving Inhabited

namespace Cursor

/-- The position after the next character; a byte order mark takes no column. -/
def step (cursor : Cursor) : Cursor :=
  match cursor.rest with
  | [] => cursor
  | c :: rest =>
    let index := cursor.index + 1
    let left := cursor.left - 1
    if isBreak c then { rest, line := cursor.line + 1, column := 0, index, left }
    else
      let column := if c == '\uFEFF' then cursor.column else cursor.column + 1
      { rest, line := cursor.line, column, index, left }

/-- The position after some more characters. -/
def skip : Nat → Cursor → Cursor
  | 0, cursor => cursor
  | n + 1, cursor => skip n cursor.step

/-- The characters with a property that come next, and the position after them. -/
def takeWhile (p : Point → Bool) (cursor : Cursor) : List Point × Cursor :=
  let found := cursor.rest.takeWhile p
  (found, cursor.skip found.length)

/-- The position after the characters with a property that come next. -/
def skipWhile (p : Point → Bool) (cursor : Cursor) : Cursor :=
  (cursor.takeWhile p).2

/-- The line end that comes next, if there is one, and the position after it; a next-line character
counts as a line feed. -/
def takeBreak? (cursor : Cursor) : Option (Point × Cursor) :=
  match cursor.rest with
  | c :: _ =>
    if c == '\n' || c == '\x85' then some ('\n', cursor.step)
    else if isBreak c then some (c, cursor.step)
    else none
  | [] => none

/-- The position at the end of the line, after blanks and a comment; only those may stand there. -/
def skipLineRest? (cursor : Cursor) : Option Cursor :=
  let cursor := cursor.skipWhile (· == .char ' ')
  let cursor := if cursor.rest.head? == some (.char '#') then cursor.skipWhile (!isBreak ·) else cursor
  if atLineEnd cursor.rest then
    some (match cursor.takeBreak? with
      | some (_, after) => after
      | none => cursor)
  else none

end Cursor

end SchemaCodecs.Yaml
