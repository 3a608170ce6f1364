/-
# Documents in YAML

From a YAML text to the value it describes.  Where a mapping stands at several places, its places
carry the same label; a mapping that stands at one place has none.  In a value that contains itself
every mapping keeps its label, since it may be met again.
-/
import SchemaCodecs.Text.Utf8
import SchemaCodecs.Value.Recurrence
import SchemaCodecs.Yaml.Build
import SchemaCodecs.Yaml.Lexer

namespace SchemaCodecs.Yaml

/-! ## Labels -/

mutual

/-- The labels in a value, as often as they occur. -/
def labels : Value → List Nat
  | .scalar _ => []
  | .sequence items => labelsAll items
  | .mapping label entries => label.toList ++ labelsEntries entries
  | .set _ => []
  | .pair first second => labels first ++ labels second

/-- The labels in a list of values. -/
def labelsAll : List Value → List Nat
  | [] => []
  | v :: rest => labels v ++ labelsAll rest

/-- The labels in the values of a list of entries. -/
def labelsEntries : List (Scalar × Value) → List Nat
  | [] => []
  | (_, v) :: rest => labels v ++ labelsEntries rest

end

/-- The numbers that stand next to an equal one in a list. -/
def repeatedNeighbours : List Nat → List Nat
  | a :: b :: rest =>
    if a == b then a :: repeatedNeighbours (b :: rest) else repeatedNeighbours (b :: rest)
  | _ => []

mutual

/-- A value with only the given labels kept. -/
def keepLabels (kept : List Nat) : Value → Value
  | .scalar s => .scalar s
  | .sequence items => .sequence (keepLabelsAll kept items)
  | .mapping label entries =>
    .mapping (label.filter kept.contains) (keepLabelsEntries kept entries)
  | .set members => .set members
  | .pair first second => .pair (keepLabels kept first) (keepLabels kept second)

/-- A list of values with only the given labels kept. -/
def keepLabelsAll (kept : List Nat) : List Value → List Value
  | [] => []
  | v :: rest => keepLabels kept v :: keepLabelsAll kept rest

/-- A list of entries with only the given labels kept. -/
def keepLabelsEntries (kept : List Nat) : List (Scalar × Value) → List (Scalar × Value)
  | [] => []
  | (key, v) :: rest => (key, keepLabels kept v) :: keepLabelsEntries kept rest

end

/-- A value in which only mappings at several places have a label; if it contains itself, all have. -/
def sharedLabels (v : Value) : Value :=
  if v.isFinite then
    keepLabels (repeatedNeighbours ((labels v).mergeSort fun a b => decide (a ≤ b))) v
  else v

/-! ## Reading -/

/-- A character that may stand in a YAML text. -/
def isAllowed (c : Point) : Bool :=
  let n := c.toNat
  n == 0x09 || n == 0x0a || n == 0x0d || (0x20 ≤ n && n ≤ 0x7e) || n == 0x85 ||
    (0xa0 ≤ n && n ≤ 0xd7ff) || (0xe000 ≤ n && n ≤ 0xfffd) || 0x10000 ≤ n

/-- The nodes of a YAML text; none for an empty one. -/
def parse (cs : List Point) : Reading (Option NodeTree) := do
  NodeTree.ofTokens (← TokenStream.ofText cs)

/-- How many characters are checked before the first of them is looked at. -/
def checkedFirst : Nat := 8192

/-- Why a text has no value of which only the characters in front can be read.  If the text is longer
than what is checked first, something that stands for nothing among them may be met before. -/
def cutShort (front : List Point) : ReadFault :=
  let allowed := front.takeWhile isAllowed
  if allowed.length < checkedFirst then .malformed
  else
    match parse allowed with
    | .error (.content _) => .content .unsettled
    | _ => .malformed

/-- The value of a YAML text whose line ends are line feeds.  An empty text has the absent value.
`file` is the name under which values that are no numbers are told from those of other texts. -/
def read (file : Text) (cs : List Point) : Reading Value := do
  unless cs.all isAllowed do throw (cutShort cs)
  match ← parse cs with
  | none => return .null
  | some tree => return sharedLabels (← tree.value file)

end SchemaCodecs.Yaml
