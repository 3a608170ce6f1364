/-
# References

A reference is a path, a number sign and a fragment; the fragment of a reference to a part of a
document is a pointer, slash-separated tokens in which `~1` stands for a slash and `~0` for a
tilde.  The declaration a reference means is named by its last token.
-/
import SchemaCodecs.Text.Segment

namespace SchemaCodecs.Reference

open Text

/-! ## Tokens -/

/-- Every tilde with the given mark after it read as one character. -/
def unescape (mark meant : Point) : List Point → List Point
  | [] => []
  | [c] => [c]
  | c :: d :: rest =>
    if c = '~' ∧ d = mark then meant :: unescape mark meant rest
    else c :: unescape mark meant (d :: rest)

/-- Every `~1` read as a slash. -/
def decodeSlashes (cs : List Point) : List Point :=
  unescape '1' '/' cs

/-- Every `~0` read as a tilde. -/
def decodeTildes (cs : List Point) : List Point :=
  unescape '0' '~' cs

/-- The key that a token of a pointer stands for: slashes are decoded first, so that `~01` stands
for `~1`. -/
def decodeToken (token : List Point) : List Point :=
  decodeTildes (decodeSlashes token)

/-! ## Parts of a reference -/

/-- The path and the fragment of a reference, cut at its first number sign. -/
def split (ref : Text) : Text × Text :=
  let (path, fragment) := cutFirst '#' ref.toList
  (Text.ofList path, Text.ofList (fragment.getD []))

/-- The name of the declaration that a reference means: its last token. -/
def declarationName (ref : Text) : Text :=
  Text.ofList (decodeToken (lastSegment '/' ref.toList))

/-- Whether a reference stays inside the file it stands in. -/
def isLocal (ref : Text) : Bool :=
  ref.toList.head? == some (.char '#')

/-! ## The schemas of a document -/

/-- The key under which a mapping holds a reference. -/
def refKey : Text :=
  "$ref"

/-- The place of the component schemas in a document. -/
def schemasPath : Text :=
  "#/components/schemas"

/-- The reference to the component schema of the given name, with the name as it is. -/
def toSchema (name : Text) : Text :=
  schemasPath ++ "/" ++ name

end SchemaCodecs.Reference
