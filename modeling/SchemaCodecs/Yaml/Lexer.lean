/-
# Lexing YAML

From a text to its tokens.  Three things are carried along: the columns of the block collections
that are open, the places where a key without an indicator may have begun, one for every level of
brackets, and whether such a key may begin at the current place.  A colon turns the place on its
level into a key.

Tokens are asked for one by one, and a token behind the place of a possible key is not given away
before it is known whether there is a key.  Where something is written that stands for nothing, the
text ends for those who read the tokens: it is found out when the next token is asked for.
-/
import SchemaCodecs.Yaml.Scalar
import SchemaCodecs.Yaml.Token

namespace SchemaCodecs.Yaml

/-! ## State -/

/-- A place where a key may have begun. -/
structure KeyPlace where
  /-- The number of tokens before it. -/
  count : Nat
  /-- Whether a key has to begin there. -/
  required : Bool
  /-- The position. -/
  index : Nat
  /-- The line. -/
  line : Nat
  /-- The column. -/
  column : Nat
  deriving Inhabited

/-- A lexer at a position of its text. -/
structure Lexer where
  /-- The position. -/
  cursor : Cursor
  /-- The tokens so far, last first. -/
  tokens : List Token := []
  /-- The number of tokens so far. -/
  count : Nat := 0
  /-- The possible key on the current level, and those on the levels around it. -/
  place : Option KeyPlace := none
  /-- The possible keys on the levels around the current one, innermost first. -/
  outer : List (Option KeyPlace) := []
  /-- The columns of the open block collections, innermost first. -/
  columns : List Nat := []
  /-- Whether a key may begin at the position. -/
  allowsKey : Bool := true
  deriving Inhabited

namespace Lexer

/-- Whether the position is inside brackets or braces. -/
def inFlow (lexer : Lexer) : Bool :=
  !lexer.outer.isEmpty

/-- One more than the column of the innermost block collection; zero if none is open. -/
def parent (lexer : Lexer) : Nat :=
  match lexer.columns with
  | [] => 0
  | column :: _ => column + 1

/-- The lexer with one more token. -/
def emit (lexer : Lexer) (token : Token) : Lexer :=
  { lexer with tokens := token :: lexer.tokens, count := lexer.count + 1 }

/-- The lexer with a token for the next few characters. -/
def emitSkip (lexer : Lexer) (token : Token) (length : Nat) : Lexer :=
  { lexer.emit token with cursor := lexer.cursor.skip length }

/-- The lexer with a token put in after the given number of tokens. -/
def insert (lexer : Lexer) (count : Nat) (token : Token) : Lexer :=
  let later := lexer.count - count
  { lexer with
    tokens := lexer.tokens.take later ++ token :: lexer.tokens.drop later
    count := lexer.count + 1 }

/-! ## Indentation -/

/-- The lexer with all block collections closed whose column is not below the given bound. -/
def closeFrom (lexer : Lexer) (bound : Nat) : Lexer :=
  let closed := lexer.columns.takeWhile (bound ≤ ·)
  { lexer with
    tokens := closed.map (fun _ => Token.blockEnd) ++ lexer.tokens
    count := lexer.count + closed.length
    columns := lexer.columns.drop closed.length }

/-- The lexer with the block collections closed that the given column ends; brackets suspend
indentation. -/
def unwind (lexer : Lexer) (column : Nat) : Lexer :=
  if lexer.inFlow then lexer else lexer.closeFrom (column + 1)

/-- The lexer with all block collections closed. -/
def unwindAll (lexer : Lexer) : Lexer :=
  if lexer.inFlow then lexer else lexer.closeFrom 0

/-- Whether a block collection that begins at a column is inside all open ones. -/
def opensAt (lexer : Lexer) (column : Nat) : Bool :=
  lexer.parent ≤ column

/-! ## Possible keys -/

/-- Whether a key that begins at a place can still be completed: keys stay on one line and are not
longer than 1024 characters. -/
def isFresh (lexer : Lexer) (place : KeyPlace) : Bool :=
  place.line == lexer.cursor.line && lexer.cursor.index - place.index ≤ 1024

/-- A possible key, if it can still be completed; a required one has to be. -/
def refreshed (lexer : Lexer) : Option KeyPlace → Reading (Option KeyPlace)
  | none => .ok none
  | some place =>
    if lexer.isFresh place then .ok (some place)
    else if place.required then .error .malformed
    else .ok none

/-- The lexer without the possible keys that can no longer be completed. -/
def dropStale (lexer : Lexer) : Reading Lexer := do
  let outer ← lexer.outer.mapM lexer.refreshed
  let place ← lexer.refreshed lexer.place
  return { lexer with place, outer }

/-- The lexer without the possible key on the current level, which must not be required. -/
def dropPlace (lexer : Lexer) : Reading Lexer :=
  match lexer.place with
  | some place => if place.required then .error .malformed else .ok { lexer with place := none }
  | none => .ok lexer

/-- The lexer with the current position as a possible key, if keys may begin there. -/
def savePlace (lexer : Lexer) : Reading Lexer :=
  if lexer.allowsKey then do
    let required := !lexer.inFlow && lexer.parent == lexer.cursor.column + 1
    let lexer ← lexer.dropPlace
    let cursor := lexer.cursor
    let place : KeyPlace :=
      { count := lexer.count, required, index := cursor.index, line := cursor.line
        column := cursor.column }
    return { lexer with place := some place }
  else .ok lexer

/-- The number of tokens that can be given away: those before the first possible key. -/
def given (lexer : Lexer) : Nat :=
  (lexer.place :: lexer.outer).foldl
    (fun count place => match place with
      | some place => min count place.count
      | none => count)
    lexer.count

/-! ## Between tokens -/

/-- The lexer after blanks, comments and line ends; a key may begin on a new line. -/
def skipGap : Nat → Lexer → Lexer
  | 0, lexer => lexer
  | fuel + 1, lexer =>
    let cursor := lexer.cursor.skipWhile (· == .char ' ')
    let cursor :=
      if cursor.rest.head? == some (.char '#') then cursor.skipWhile (!isBreak ·) else cursor
    match cursor.takeBreak? with
    | some (_, after) =>
      let allowsKey := lexer.allowsKey || !lexer.inFlow
      skipGap fuel { lexer with cursor := after, allowsKey }
    | none => { lexer with cursor }

/-- The lexer at the next token; a byte order mark at the very beginning is skipped. -/
def toNextToken (lexer : Lexer) : Lexer :=
  let atMark := lexer.cursor.index == 0 && lexer.cursor.rest.head? == some (.char '\uFEFF')
  let lexer := if atMark then { lexer with cursor := lexer.cursor.step } else lexer
  lexer.skipGap (lexer.cursor.left + 1)

/-! ## Directives -/

/-- The number at a position. -/
def scanNumber (cursor : Cursor) : Reading (Nat × Cursor) :=
  let (digits, after) := cursor.takeWhile Point.isDigit
  if digits.isEmpty then .error .malformed
  else if Number.digitLimit < digits.length then
    .error (.content (.invalid (.longNumeral digits.length)))
  else .ok (Json.digitsNumber digits, after)

/-- The handle of a tag at a position: an exclamation mark, which a word and a second one may
follow. -/
def scanHandle (cursor : Cursor) : Option (Text × Cursor) :=
  match cursor.rest with
  | '!' :: ' ' :: _ => some ("!", cursor.step)
  | '!' :: _ =>
    let (word, after) := cursor.step.takeWhile isWordChar
    match after.rest with
    | '!' :: _ => some (Text.ofList (.char '!' :: word ++ [.char '!']), after.step)
    | _ => none
  | _ => none

/-- A character that may stand in the suffix of a tag. -/
def isUriChar (c : Point) : Bool :=
  c.isAlphanum || ("-;/?:@&=+$,_.!~*'()[]" : Text).toList.contains c

/-- The bytes of the escapes at a position. -/
def uriEscapes : Nat → Cursor → List UInt8 → Option (List UInt8 × Cursor)
  | 0, _, _ => none
  | fuel + 1, cursor, found =>
    match cursor.rest with
    | '%' :: a :: b :: _ => do
      let code ← Json.hexNumber? [a, b]
      uriEscapes fuel (cursor.skip 3) (UInt8.ofNat code :: found)
    | '%' :: _ => none
    | _ => some (found.reverse, cursor)

/-- The characters of the suffix of a tag, last first. -/
def uriChars : Nat → Cursor → List Point → Option (List Point × Cursor)
  | 0, _, _ => none
  | fuel + 1, cursor, found =>
    match cursor.rest with
    | '%' :: _ => do
      let (bytes, after) ← uriEscapes (cursor.left + 1) cursor []
      let text ← String.fromUTF8? ⟨bytes.toArray⟩
      uriChars fuel after ((Text.ofString text).toList.reverse ++ found)
    | c :: _ =>
      if isUriChar c then uriChars fuel cursor.step (c :: found) else some (found, cursor)
    | [] => some (found, cursor)

/-- The suffix of a tag at a position; it is not empty. -/
def scanUri (cursor : Cursor) : Option (Text × Cursor) := do
  let (found, after) ← uriChars (cursor.left + 1) cursor []
  if found.isEmpty && after.index == cursor.index then none
  else return (Text.ofList found.reverse, after)

/-- Whether a text is at its end, at a space or at the end of a line. -/
def atSpace : List Point → Bool
  | [] => true
  | c :: _ => c == ' ' || isBreak c

/-- The version of the language at a position. -/
def scanVersion (cursor : Cursor) : Reading (Directive × Cursor) := do
  let (major, cursor) ← scanNumber cursor
  if cursor.rest.head? != some (.char '.') then throw .malformed
  let (_, cursor) ← scanNumber cursor.step
  if !atSpace cursor.rest then throw .malformed
  return (.version major, cursor)

/-- A handle and what it stands for at a position. -/
def scanHandleMeaning (cursor : Cursor) : Option (Directive × Cursor) := do
  let (handle, cursor) ← scanHandle cursor
  if cursor.rest.head? != some (.char ' ') then none
  else
    let (meaning, cursor) ← scanUri (cursor.skipWhile (· == .char ' '))
    if atSpace cursor.rest then return (.handle handle meaning, cursor) else none

/-- What a directive says, after its name. -/
def scanDirectiveValue (name : Text) (cursor : Cursor) : Reading (Directive × Cursor) :=
  if name == "YAML" then scanVersion (cursor.skipWhile (· == .char ' '))
  else if name == "TAG" then required (scanHandleMeaning (cursor.skipWhile (· == .char ' ')))
  else .ok (.other, cursor.skipWhile (!isBreak ·))

/-- The directive at a position. -/
def scanDirective (cursor : Cursor) : Reading (Directive × Cursor) := do
  let (name, cursor) := cursor.step.takeWhile isWordChar
  if name.isEmpty || !atSpace cursor.rest then throw .malformed
  let (directive, cursor) ← scanDirectiveValue (Text.ofList name) cursor
  return (directive, ← required cursor.skipLineRest?)

/-! ## Properties of nodes -/

/-- Whether the name of an anchor may end before the given text. -/
def endsAnchor : List Point → Bool
  | [] => true
  | c :: _ => isGap c || ("?:,]\x7d%@\x60" : Text).toList.contains c

/-- The name after the indicator of an anchor or alias. -/
def scanAnchorName (cursor : Cursor) : Option (Text × Cursor) :=
  let (name, cursor) := cursor.step.takeWhile isWordChar
  if name.isEmpty || !endsAnchor cursor.rest then none
  else some (Text.ofList name, cursor)

/-- Whether a tag is written with a handle that ends in an exclamation mark. -/
def hasLongHandle (rest : List Point) : Bool :=
  (rest.takeWhile fun c : Point => !(c == ' ' || isBreak c)).contains '!'

/-- The handle of the tag at a position; one exclamation mark unless a longer one is written. -/
def scanTagHandle (rest : List Point) (cursor : Cursor) : Option (Text × Cursor) :=
  if hasLongHandle rest then scanHandle cursor else some ("!", cursor.step)

/-- The tag at a position: a full name, a single exclamation mark, or a handle
with a suffix. -/
def scanTagName (cursor : Cursor) : Option (TagName × Cursor) :=
  match cursor.rest with
  | '!' :: '<' :: _ => do
    let (suffix, cursor) ← scanUri (cursor.skip 2)
    if cursor.rest.head? == some (.char '>') then some (⟨none, suffix⟩, cursor.step) else none
  | _ :: rest =>
    if atGap rest then some (⟨none, "!"⟩, cursor.step)
    else do
      let (handle, cursor) ← scanTagHandle rest cursor
      let (suffix, cursor) ← scanUri cursor
      return (⟨some handle, suffix⟩, cursor)
  | [] => none

/-- The tag at a position, before a space or the end of the line. -/
def scanTag (cursor : Cursor) : Option (TagName × Cursor) := do
  let (name, cursor) ← scanTagName cursor
  if atSpace cursor.rest then some (name, cursor) else none

/-! ## Tokens -/

/-- The lexer after an indicator of a document or the end of the text. -/
def lexBoundary (lexer : Lexer) (token : Token) (length : Nat) : Reading Lexer := do
  let lexer ← lexer.unwindAll.dropPlace
  return { lexer.emitSkip token length with allowsKey := false }

/-- The lexer after a directive. -/
def lexDirective (lexer : Lexer) : Reading Lexer := do
  let lexer ← lexer.unwindAll.dropPlace
  let (directive, cursor) ← scanDirective lexer.cursor
  return { lexer.emit (.directive directive) with cursor, allowsKey := false }

/-- The lexer after an opening bracket or brace, which may begin a key. -/
def lexOpening (lexer : Lexer) (token : Token) : Reading Lexer := do
  let lexer ← lexer.savePlace
  let outer := lexer.place :: lexer.outer
  return { lexer.emitSkip token 1 with place := none, outer, allowsKey := true }

/-- The lexer after a closing bracket or brace; one without an opening one is refused. -/
def lexClosing (lexer : Lexer) (token : Token) : Reading Lexer := do
  let lexer ← lexer.dropPlace
  match lexer.outer with
  | place :: outer => return { lexer.emitSkip token 1 with place, outer, allowsKey := false }
  | [] => throw .malformed

/-- The lexer after a comma. -/
def lexComma (lexer : Lexer) : Reading Lexer := do
  let lexer ← lexer.dropPlace
  return { lexer.emitSkip .flowEntry 1 with allowsKey := true }

/-- The lexer with a block collection begun at the current column, unless one is open there. -/
def beginBlock (lexer : Lexer) (token : Token) : Lexer :=
  if lexer.opensAt lexer.cursor.column then
    { lexer.emit token with columns := lexer.cursor.column :: lexer.columns }
  else lexer

/-- The lexer with a block collection begun at the current column; outside brackets an entry may
only begin where a key may. -/
def beginEntry (lexer : Lexer) (token : Token) : Reading Lexer :=
  if lexer.inFlow then .ok lexer
  else if lexer.allowsKey then .ok (lexer.beginBlock token)
  else .error .malformed

/-- The lexer after the hyphen of an entry. -/
def lexHyphen (lexer : Lexer) : Reading Lexer := do
  let lexer ← (← lexer.beginEntry .blockSequenceStart).dropPlace
  return { lexer.emitSkip .blockEntry 1 with allowsKey := true }

/-- The lexer after the question mark of a key. -/
def lexQuestionMark (lexer : Lexer) : Reading Lexer := do
  let lexer ← (← lexer.beginEntry .blockMappingStart).dropPlace
  return { lexer.emitSkip .key 1 with allowsKey := !lexer.inFlow }

/-- The lexer after the colon of a value.  A possible key on the level becomes one, and may begin a
block mapping. -/
def lexColon (lexer : Lexer) : Reading Lexer :=
  match lexer.place with
  | some place =>
    let lexer := { lexer.insert place.count .key with place := none, allowsKey := false }
    let lexer :=
      if !lexer.inFlow && lexer.opensAt place.column then
        { lexer.insert place.count .blockMappingStart with
          columns := place.column :: lexer.columns }
      else lexer
    .ok (lexer.emitSkip .value 1)
  | none => do
    let lexer ← (← lexer.beginEntry .blockMappingStart).dropPlace
    return { lexer.emitSkip .value 1 with allowsKey := !lexer.inFlow }

/-- The lexer after a token that may begin a key. -/
def lexInKey {α : Type} (lexer : Lexer) (scan : Cursor → Reading (α × Cursor))
    (token : α → Token) : Reading Lexer := do
  let lexer ← lexer.savePlace
  let (found, cursor) ← scan lexer.cursor
  return { lexer.emit (token found) with cursor, allowsKey := false }

/-- The lexer after a block scalar. -/
def lexBlockScalar (lexer : Lexer) (folded : Bool) : Reading Lexer := do
  let lexer ← lexer.dropPlace
  let (text, cursor) ← required (scanBlock folded lexer.parent lexer.cursor)
  return { lexer.emit (.scalar text false) with cursor, allowsKey := true }

/-- The lexer after a plain scalar. -/
def lexPlain (lexer : Lexer) : Reading Lexer := do
  let lexer ← lexer.savePlace
  let (text, cursor, newLine) := scanPlain lexer.inFlow lexer.parent lexer.cursor
  return { lexer.emit (.scalar text true) with cursor, allowsKey := newLine }

/-- Whether a plain scalar may begin with a character before the given text. -/
def startsPlain (inFlow : Bool) (c : Point) (rest : List Point) : Bool :=
  !(isGap c || ("-?:,[]\x7b\x7d#&*!|>'\"%@\x60" : Text).toList.contains c) ||
    (!atGap rest && (c == '-' || (!inFlow && (c == '?' || c == ':'))))

/-- The lexer after the next token. -/
def fetch (lexer : Lexer) : Reading Lexer := do
  let lexer ← lexer.toNextToken.dropStale
  let lexer := lexer.unwind lexer.cursor.column
  let inFlow := lexer.inFlow
  match lexer.cursor.rest with
  | [] => lexer.lexBoundary .streamEnd 0
  | c :: rest =>
    let atLineStart := lexer.cursor.column == 0
    if c == '%' && atLineStart then lexer.lexDirective
    else if c == '-' && atLineStart && atMarker (c :: rest) then
      lexer.lexBoundary .documentStart 3
    else if c == '.' && atLineStart && atMarker (c :: rest) then
      lexer.lexBoundary .documentEnd 3
    else if c == '[' then lexer.lexOpening .flowSequenceStart
    else if c == '\x7b' then lexer.lexOpening .flowMappingStart
    else if c == ']' then lexer.lexClosing .flowSequenceEnd
    else if c == '\x7d' then lexer.lexClosing .flowMappingEnd
    else if c == ',' then lexer.lexComma
    else if c == '-' && atGap rest then lexer.lexHyphen
    else if c == '?' && (inFlow || atGap rest) then lexer.lexQuestionMark
    else if c == ':' && (inFlow || atGap rest) then lexer.lexColon
    else if c == '*' then lexer.lexInKey (fun cursor => required (scanAnchorName cursor)) .alias
    else if c == '&' then lexer.lexInKey (fun cursor => required (scanAnchorName cursor)) .anchor
    else if c == '!' then lexer.lexInKey (fun cursor => required (scanTag cursor)) .tag
    else if c == '|' && !inFlow then lexer.lexBlockScalar false
    else if c == '>' && !inFlow then lexer.lexBlockScalar true
    else if c == '\'' then lexer.lexInKey (scanQuoted false) (.scalar · false)
    else if c == '"' then lexer.lexInKey (scanQuoted true) (.scalar · false)
    else if startsPlain inFlow c rest then lexer.lexPlain
    else throw .malformed

/-- The tokens up to the current position, of which those behind a possible key are not given away;
then something that stands for nothing is found. -/
def endingIn (lexer : Lexer) (fault : Fault) : Reading TokenStream := do
  let lexer ← lexer.dropStale
  return { tokens := lexer.tokens.reverse.take lexer.given, ending := .content fault }

/-- The tokens from a position to the end of the text. -/
def run : Nat → Lexer → Reading TokenStream
  | 0, _ => .error .malformed
  | fuel + 1, lexer =>
    match lexer.fetch with
    | .error .malformed => .error .malformed
    | .error (.content fault) => lexer.endingIn fault
    | .ok lexer =>
      match lexer.tokens with
      | .streamEnd :: _ => .ok { tokens := lexer.tokens.reverse }
      | _ => run fuel lexer

end Lexer

/-- The tokens of a text, if it is well formed. -/
def TokenStream.ofText (cs : List Point) : Reading TokenStream :=
  Lexer.run (cs.length + 1) { cursor := { rest := cs } }

end SchemaCodecs.Yaml
