/-
# Scalars of a YAML text

Reading the text of a scalar: in quotes, as an indented block, or plain.  The characters read so far
are kept last first.  Every loop consumes characters, so the length of what is left bounds it.
-/
import SchemaCodecs.Json.Reader
import SchemaCodecs.Yaml.Cursor
import SchemaCodecs.Yaml.Fault

namespace SchemaCodecs.Yaml

/-! ## Quoted scalars -/

/-- The character behind a one-letter escape. -/
def shortEscape? : Point → Option Point
  | '0' => some '\x00'
  | 'a' => some '\x07'
  | 'b' => some '\x08'
  | 't' => some '\t'
  | '\t' => some '\t'
  | 'n' => some '\n'
  | 'v' => some '\x0b'
  | 'f' => some '\x0c'
  | 'r' => some '\r'
  | 'e' => some '\x1b'
  | ' ' => some ' '
  | '"' => some '"'
  | '\\' => some '\\'
  | '/' => some '/'
  | 'N' => some '\x85'
  | '_' => some '\xa0'
  | 'L' => some '\u2028'
  | 'P' => some '\u2029'
  | _ => none

/-- The number of hexadecimal digits after the letter of an escape by code point. -/
def codeEscapeWidth? : Point → Option Nat
  | 'x' => some 2
  | 'u' => some 4
  | 'U' => some 8
  | _ => none

/-- The code point with a number, which may be a lone surrogate.  Numbers beyond the last code point
stand for nothing. -/
def pointOfCode (code : Nat) : Reading Point :=
  if code < 0x110000 then .ok (Point.ofNat code)
  else if code < Nat.pow 2 31 then .error (.content (.invalid .codePoint))
  else .error (.content (.illTyped .tooLarge))

/-- The number in the escape by code point at the front of a text, and the length of the escape. -/
def escapedCode? : List Point → Option (Nat × Nat)
  | '\\' :: letter :: rest => do
    let width ← codeEscapeWidth? letter
    let digits := rest.take width
    if digits.length < width then none
    return (← Json.hexNumber? digits, 2 + width)
  | _ => none

/-- The code point of the escape at the front of a text, and the length of the escape.  Every escape
is read for itself, so two halves of a pair stay two lone surrogates. -/
def codeEscape (cs : List Point) : Reading (Point × Nat) := do
  let (code, length) ← required (escapedCode? cs)
  return (← pointOfCode code, length)

/-- The line ends that come next, with blanks before and after each skipped; a document marker must
not follow. -/
def quotedBreaks : Nat → Cursor → List Point → Reading (List Point × Cursor)
  | 0, _, _ => .error .malformed
  | fuel + 1, cursor, found =>
    if atMarker cursor.rest then .error .malformed
    else
      let cursor := cursor.skipWhile fun c => c == ' ' || c == '\t'
      match cursor.takeBreak? with
      | some (c, after) => quotedBreaks fuel after (c :: found)
      | none => .ok (found, cursor)

/-- The characters of a quoted scalar up to the next blank, line end or closing quote. -/
def quotedRun (isDouble : Bool) : Nat → Cursor → List Point → Reading (List Point × Cursor)
  | 0, _, _ => .error .malformed
  | fuel + 1, cursor, found =>
    match cursor.rest with
    | [] => .ok (found, cursor)
    | '\'' :: after =>
      if isDouble then quotedRun isDouble fuel cursor.step (.char '\'' :: found)
      else
        match after with
        | '\'' :: _ => quotedRun isDouble fuel (cursor.skip 2) (.char '\'' :: found)
        | _ => .ok (found, cursor)
    | '"' :: _ =>
      if isDouble then .ok (found, cursor) else quotedRun isDouble fuel cursor.step (.char '"' :: found)
    | '\\' :: after =>
      if isDouble then
        match after with
        | [] => .error .malformed
        | letter :: _ =>
          match shortEscape? letter with
          | some c => quotedRun isDouble fuel (cursor.skip 2) (c :: found)
          | none =>
            if isBreak letter then do
              let (found, cursor) ← quotedBreaks fuel (cursor.skip 2) found
              quotedRun isDouble fuel cursor found
            else do
              let (c, length) ← codeEscape cursor.rest
              quotedRun isDouble fuel (cursor.skip length) (c :: found)
      else quotedRun isDouble fuel cursor.step (.char '\\' :: found)
    | c :: _ =>
      if isGap c then .ok (found, cursor) else quotedRun isDouble fuel cursor.step (c :: found)

/-- The blanks and line ends inside a quoted scalar: a single line end counts as a space, of several
the first one is dropped. -/
def quotedGap (cursor : Cursor) (found : List Point) : Reading (List Point × Cursor) :=
  let (blanks, cursor) := cursor.takeWhile fun c => c == ' ' || c == '\t'
  if cursor.rest.isEmpty then .error .malformed
  else
    match cursor.takeBreak? with
    | none => .ok (blanks.reverse ++ found, cursor)
    | some (c, after) => do
      let (breaks, cursor) ← quotedBreaks (after.left + 1) after []
      let joint := if c != '\n' then [c] else if breaks.isEmpty then [.char ' '] else []
      return (breaks ++ joint ++ found, cursor)

/-- The rest of a quoted scalar after its opening quote. -/
def quotedRest (isDouble : Bool) : Nat → Cursor → List Point → Reading (List Point × Cursor)
  | 0, _, _ => .error .malformed
  | fuel + 1, cursor, found => do
    let (found, cursor) ← quotedRun isDouble (cursor.left + 1) cursor found
    if cursor.rest.head? == some (Point.char (if isDouble then '"' else '\'')) then
      return (found, cursor.step)
    else
      let (found, cursor) ← quotedGap cursor found
      quotedRest isDouble fuel cursor found

/-- The text of the quoted scalar at a position, and the position after it. -/
def scanQuoted (isDouble : Bool) (cursor : Cursor) : Reading (Text × Cursor) := do
  let (found, cursor) ← quotedRest isDouble (cursor.left + 1) cursor.step []
  return (Text.ofList found.reverse, cursor)

/-! ## Block scalars -/

/-- How the line ends at the end of a block scalar are treated. -/
inductive Chomping where
  /-- The last one of the text is kept. -/
  | clip
  /-- None is kept. -/
  | strip
  /-- All are kept. -/
  | keep
  deriving DecidableEq

/-- The sign that determines the treatment of the last line ends. -/
def chomping? : Point → Option Chomping
  | '+' => some .keep
  | '-' => some .strip
  | _ => none

/-- The indentation that a digit states. -/
def increment? (c : Point) : Option Nat :=
  if c.isDigit then some (c.toNat - '0'.toNat) else none

/-- The signs after the indicator of a block scalar, in either order, and the position after them. -/
def blockSigns (cursor : Cursor) : Chomping × Option Nat × Cursor :=
  let head (cursor : Cursor) : Point := cursor.rest.headD ' '
  match chomping? (head cursor) with
  | some chomping =>
    match increment? (head cursor.step) with
    | some n => (chomping, some n, cursor.step.step)
    | none => (chomping, none, cursor.step)
  | none =>
    match increment? (head cursor) with
    | some n =>
      match chomping? (head cursor.step) with
      | some chomping => (chomping, some n, cursor.step.step)
      | none => (.clip, some n, cursor.step)
    | none => (.clip, none, cursor)

/-- The signs after the indicator of a block scalar, before a space or the end of the line; an
indentation of zero is refused. -/
def blockHeader (cursor : Cursor) : Option (Chomping × Option Nat × Cursor) :=
  let (chomping, increment, cursor) := blockSigns cursor
  let next := cursor.rest.headD ' '
  if increment != some 0 && (next == ' ' || isBreak next) then some (chomping, increment, cursor)
  else none

/-- The empty lines at the beginning of a block scalar, last first, and the greatest column that
their spaces and those of the next line reach. -/
def blockLead : Nat → Cursor → List Point → Nat → List Point × Nat × Cursor
  | 0, cursor, breaks, widest => (breaks, widest, cursor)
  | fuel + 1, cursor, breaks, widest =>
    if cursor.rest.head? == some (.char ' ') then
      let cursor := cursor.step
      blockLead fuel cursor breaks (max widest cursor.column)
    else
      match cursor.takeBreak? with
      | some (c, after) => blockLead fuel after (c :: breaks) widest
      | none => (breaks, widest, cursor)

/-- The empty lines that come next, last first, and the position at the indentation of the next
line or before it. -/
def blockBreaks (indent : Nat) : Nat → Cursor → List Point → List Point × Cursor
  | 0, cursor, breaks => (breaks, cursor)
  | fuel + 1, cursor, breaks =>
    let spaces := (cursor.rest.take (indent - cursor.column)).takeWhile (· == .char ' ')
    let cursor := cursor.skip spaces.length
    match cursor.takeBreak? with
    | some (c, after) => blockBreaks indent fuel after (c :: breaks)
    | none => (breaks, cursor)

/-- The line end at a position, if there is one, and the position after it. -/
def takeLineEnd (cursor : Cursor) : List Point × Cursor :=
  match cursor.takeBreak? with
  | some (c, after) => ([c], after)
  | none => ([], cursor)

/-- The lines of a block scalar, last character first, then the line end after the last line and
the empty lines that follow it. -/
def blockLines (folded : Bool) (indent : Nat) :
    Nat → Cursor → List Point → List Point → List Point × List Point × List Point × Cursor
  | 0, cursor, breaks, found => (found, [], breaks, cursor)
  | fuel + 1, cursor, breaks, found =>
    let isText (c : Option Point) : Bool := c != some (.char ' ') && c != some (.char '\t')
    let startsText := isText cursor.rest.head?
    let (line, cursor) := cursor.takeWhile (!isBreak ·)
    let found := line.reverse ++ breaks ++ found
    let (ending, cursor) := takeLineEnd cursor
    let (breaks, cursor) := blockBreaks indent (cursor.left + 1) cursor []
    if cursor.column == indent && !cursor.rest.isEmpty then
      let joint :=
        if folded && ending == [.char '\n'] && startsText && isText cursor.rest.head? then
          if breaks.isEmpty then [.char ' '] else []
        else ending
      blockLines folded indent fuel cursor breaks (joint ++ found)
    else (found, ending, breaks, cursor)

/-- The empty lines at the beginning of a block scalar, last first, its indentation, and the position
at the first line.  The indentation is stated as more than the least one, or that of the lines. -/
def blockStart (least : Nat) (increment : Option Nat) (cursor : Cursor) : List Point × Nat × Cursor :=
  match increment with
  | none =>
    let (breaks, widest, cursor) := blockLead (cursor.left + 1) cursor [] 0
    (breaks, max least widest, cursor)
  | some n =>
    let indent := least + n - 1
    let (breaks, cursor) := blockBreaks indent (cursor.left + 1) cursor []
    (breaks, indent, cursor)

/-- The lines of a block scalar, as `blockLines` gives them; none if the first one is not indented. -/
def blockBody (folded : Bool) (indent : Nat) (breaks : List Point) (cursor : Cursor) :
    List Point × List Point × List Point × Cursor :=
  if cursor.column == indent && !cursor.rest.isEmpty then
    blockLines folded indent (cursor.left + 1) cursor breaks []
  else ([], [], breaks, cursor)

/-- The text of the block scalar at a position, inside a collection whose entries are indented by
`parent - 1`, and the position after it. -/
def scanBlock (folded : Bool) (parent : Nat) (cursor : Cursor) : Option (Text × Cursor) := do
  let (chomping, increment, cursor) ← blockHeader cursor.step
  let cursor ← cursor.skipLineRest?
  let (breaks, indent, cursor) := blockStart (max parent 1) increment cursor
  let (found, ending, breaks, cursor) := blockBody folded indent breaks cursor
  let tail := match chomping with
    | .strip => []
    | .clip => ending
    | .keep => breaks ++ ending
  return (Text.ofList (tail ++ found).reverse, cursor)

/-! ## Plain scalars -/

/-- A character that separates the entries of a collection in brackets or braces. -/
def isFlowIndicator (c : Point) : Bool :=
  c == ',' || c == '[' || c == ']' || c == '\x7b' || c == '\x7d'

/-- Whether a colon before the given text ends a plain scalar. -/
def colonEnds (inFlow : Bool) : List Point → Bool
  | [] => true
  | c :: _ => isGap c || (inFlow && isFlowIndicator c)

/-- The number of characters of a plain scalar up to the next gap or indicator. -/
def plainLength (inFlow : Bool) : List Point → Nat
  | [] => 0
  | c :: rest =>
    if isGap c || (c == ':' && colonEnds inFlow rest) ||
        (inFlow && (isFlowIndicator c || c == '?')) then 0
    else plainLength inFlow rest + 1

/-- The empty lines between two lines of a plain scalar; nothing if a document marker follows. -/
def plainBreaks : Nat → Cursor → List Point → Option (List Point) × Cursor
  | 0, cursor, breaks => (some breaks, cursor)
  | fuel + 1, cursor, breaks =>
    let cursor := cursor.skipWhile (· == .char ' ')
    match cursor.takeBreak? with
    | some (c, after) =>
      if atMarker after.rest then (none, after) else plainBreaks fuel after (c :: breaks)
    | none => (some breaks, cursor)

/-- What stands between two parts of a plain scalar, last character first, the position after it,
and whether a line end was passed. -/
def plainGap (cursor : Cursor) : List Point × Cursor × Bool :=
  let (blanks, cursor) := cursor.takeWhile (· == .char ' ')
  match cursor.takeBreak? with
  | none => (blanks, cursor, false)
  | some (c, after) =>
    if atMarker after.rest then ([], after, true)
    else
      match plainBreaks (after.left + 1) after [] with
      | (none, cursor) => ([], cursor, true)
      | (some breaks, cursor) =>
        let joint := if c != '\n' then [c] else if breaks.isEmpty then [.char ' '] else []
        (breaks ++ joint, cursor, true)

/-- The parts of a plain scalar from a position on; `gap` stands before the next part, and `newLine`
tells whether the last gap held a line end. -/
def plainParts (inFlow : Bool) (parent : Nat) :
    Nat → Cursor → List Point → List Point → Bool → List Point × Cursor × Bool
  | 0, cursor, _, found, newLine => (found, cursor, newLine)
  | fuel + 1, cursor, gap, found, newLine =>
    let length := plainLength inFlow cursor.rest
    if cursor.rest.head? == some (.char '#') || length == 0 then (found, cursor, newLine)
    else
      let found := (cursor.rest.take length).reverse ++ gap ++ found
      let (gap, cursor, newLine) := plainGap (cursor.skip length)
      if gap.isEmpty || cursor.rest.head? == some (.char '#') ||
          (!inFlow && cursor.column < parent) then
        (found, cursor, newLine)
      else plainParts inFlow parent fuel cursor gap found newLine

/-- The text of the plain scalar at a position, the position after it, and whether that is on a
later line. -/
def scanPlain (inFlow : Bool) (parent : Nat) (cursor : Cursor) : Text × Cursor × Bool :=
  let (found, cursor, newLine) :=
    plainParts inFlow parent (cursor.left + 1) cursor [] [] false
  (Text.ofList found.reverse, cursor, newLine)

end SchemaCodecs.Yaml
