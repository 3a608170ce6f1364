/-
# Values as messages show them

Two spellings of a value.  The *expression* shows texts in quotes and is what stands inside other
values; the *display* of a text is the text itself.  An integer with too many digits cannot be
shown, and a collection that is met again inside itself is shown as dots.  The names of the kinds of
value stand here too.
-/
import SchemaCodecs.Number.IntegerText
import SchemaCodecs.Number.Shortest
import SchemaCodecs.Text.Quoted
import SchemaCodecs.Text.Segment
import SchemaCodecs.Value.Basic

namespace SchemaCodecs

open Text

namespace Scalar

/-- A scalar as it stands inside other values. -/
def expression : Scalar → Text
  | null => "None"
  | bool b => if b then "True" else "False"
  | int n => Text.signedNumeral n
  | float x => x.text
  | notANumber _ => "nan"
  | text s => quoted s
  | bytes bs => quotedBytes bs
  | date d => d.expression
  | time t => t.expression
  | again place => if place.isMapping then "\x7b...\x7d" else "[...]"

/-- A scalar on its own: texts without quotes, dates and times as usual. -/
def display : Scalar → Text
  | text s => s
  | date d => d.text
  | time t => t.text
  | s => s.expression

/-- The name of the kind of a scalar. -/
def kindName : Scalar → Text
  | null => "NoneType"
  | bool _ => "bool"
  | int _ => "int"
  | float _ => "float"
  | notANumber _ => "float"
  | text _ => "str"
  | bytes _ => "bytes"
  | date _ => "date"
  | time _ => "datetime"
  | again place => if place.isMapping then "dict" else "list"

/-- Whether a scalar can be shown: an integer must not have too many digits. -/
def isShowable : Scalar → Bool
  | int n => Number.isWritable n
  | _ => true

end Scalar

namespace Value

mutual

/-- A value as it stands inside other values. -/
def expression : Value → Text
  | scalar s => s.expression
  | sequence items => "[" ++ joinWith ", " (itemExpressions items) ++ "]"
  | mapping _ entries => "\x7b" ++ joinWith ", " (entryExpressions entries) ++ "\x7d"
  | set [] => "set()"
  | set members => "\x7b" ++ joinWith ", " (members.map Scalar.expression) ++ "\x7d"
  | pair first second => "(" ++ expression first ++ ", " ++ expression second ++ ")"

/-- The expressions of a list of values. -/
def itemExpressions : List Value → List Text
  | [] => []
  | v :: rest => expression v :: itemExpressions rest

/-- The entries of a mapping, each as key, colon and value. -/
def entryExpressions : List (Scalar × Value) → List Text
  | [] => []
  | (key, v) :: rest => (key.expression ++ ": " ++ expression v) :: entryExpressions rest

end

/-- A value on its own. -/
def display : Value → Text
  | scalar s => s.display
  | v => v.expression

mutual

/-- Whether a value can be shown: no integer in it has too many digits. -/
def isShowable : Value → Bool
  | scalar s => s.isShowable
  | sequence items => itemsShowable items
  | mapping _ entries => entriesShowable entries
  | set members => members.all Scalar.isShowable
  | pair first second => isShowable first && isShowable second

/-- Whether all values of a list can be shown. -/
def itemsShowable : List Value → Bool
  | [] => true
  | v :: rest => isShowable v && itemsShowable rest

/-- Whether all entries of a mapping can be shown. -/
def entriesShowable : List (Scalar × Value) → Bool
  | [] => true
  | (key, v) :: rest => key.isShowable && isShowable v && entriesShowable rest

end

/-- The name of the kind of a value. -/
def kindName : Value → Text
  | scalar s => s.kindName
  | sequence _ => "list"
  | mapping _ _ => "dict"
  | set _ => "set"
  | pair _ _ => "tuple"

end Value

end SchemaCodecs
