/-
# Modules of codecs

The module of an ordered list of declarations: a head, the codec of every declaration, then the
static type of every declaration, with an empty line after each.
-/
import SchemaCodecs.Codec.Print

namespace SchemaCodecs.Codec

/-! ## Parts -/

/-- The line that remarks on the making of a module. -/
def generationComment : Text :=
  "// Generated by openapi_to_io_ts. Do not edit by hand."

/-- The first lines of a module. -/
def head (commented : Bool) : Text :=
  "/* eslint-disable */\n" ++ (if commented then generationComment ++ "\n" else "") ++
    "import * as t from 'io-ts'\n\n"

/-- The word before an exported declaration. -/
def exportWord (d : Declaration) : Text :=
  if d.exported.isTruthy then "export " else ""

/-- The declaration of a codec. -/
def codecLine (d : Declaration) (codec : Text) : Text :=
  exportWord d ++ "const " ++ d.name.display ++ " = " ++ codec ++ "\n\n"

/-- The declaration of a static type. -/
def typeLine (d : Declaration) : Text :=
  exportWord d ++ "type " ++ d.name.display ++ " = t.TypeOf<typeof " ++ d.name.display ++ ">\n\n"

/-! ## Modules -/

/-- The names among declarations that an identifier can mean. -/
def declaredNames (declarations : List Declaration) : List Text :=
  declarations.filterMap fun d => d.name.text?

/-- The declarations of the codecs, in order. -/
def codecLines (style : Style) : List Declaration → Except Fault (List Text)
  | [] => .ok []
  | d :: rest => do
    let codec ← print style 0 d.type
    return codecLine d codec :: (← codecLines style rest)

/-- The module of ordered declarations. -/
def printModule (config : Config) (declarations : List Declaration) : Except Fault Text := do
  let style := Style.ofConfig config (some (declaredNames declarations))
  let codecs ← codecLines style declarations
  let types := declarations.map typeLine
  return head config.addGenerationComment.isTruthy ++ Text.join codecs ++ Text.join types

end SchemaCodecs.Codec
