/-
# Property keys

A key of an object literal: the name itself if it is an identifier, else a string literal in single
quotes with backslashes, quotes and line feeds escaped.
-/
import SchemaCodecs.Text.Basic

namespace SchemaCodecs.Codec

/-- A character that may begin an identifier. -/
def isIdentifierStart (c : Point) : Bool :=
  c.isAlpha || c == '_' || c == '$'

/-- A character that may stand inside an identifier. -/
def isIdentifierPart (c : Point) : Bool :=
  c.isAlphanum || c == '_' || c == '$'

/-- Whether a text is an identifier: letters, digits, underscores and dollar signs, no digit
first. -/
def isIdentifier : List Point → Bool
  | [] => false
  | c :: rest => isIdentifierStart c && rest.all isIdentifierPart

/-- One character inside a string literal. -/
def escapeChar (c : Point) : List Point :=
  if c == '\\' then [.char '\\', .char '\\']
  else if c == '\'' then [.char '\\', .char '\'']
  else if c == '\n' then [.char '\\', .char 'n']
  else [c]

/-- A name as a key of an object literal. -/
def propertyKey (name : Text) : Text :=
  let cs := name.toList
  if isIdentifier cs then name
  else Text.ofList (.char '\'' :: cs.flatMap escapeChar ++ [.char '\''])

end SchemaCodecs.Codec
