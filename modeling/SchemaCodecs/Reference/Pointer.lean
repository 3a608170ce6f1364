/-
# Pointers into documents

Following a pointer from the top of a document: a token is a key of a mapping or an index of a
sequence, where a negative index counts from the end.
-/
import SchemaCodecs.Fault
import SchemaCodecs.Number.IntegerText
import SchemaCodecs.Reference.Syntax
import SchemaCodecs.Value.Recurrence

namespace SchemaCodecs.Reference

open Number Text

/-! ## One step -/

/-- The item of a list at an index; a negative index counts from the end. -/
def itemAt? {α : Type} (items : List α) (index : Int) : Option α :=
  if 0 ≤ index then items[index.toNat]?
  else if 0 ≤ items.length + index then items[(items.length + index).toNat]?
  else none

/-- The part of a value that a decoded token selects. -/
def select? (token : List Point) : Value → Option Value
  | .sequence items => (integerOfText? token).bind (itemAt? items)
  | .mapping _ entries => Entries.get? (Text.ofList token) entries
  | _ => none

/-! ## All steps -/

/-- The decoded tokens of a pointer that starts with a slash; any number of slashes at the front
counts as one. -/
def pointerTokens (pointer : List Point) : List (List Point) :=
  (segments '/' (pointer.dropWhile (· == .char '/'))).map decodeToken

/-- The part of a value that a list of decoded tokens selects. -/
def selectAll? (tokens : List (List Point)) (v : Value) : Option Value :=
  tokens.foldlM (fun part token => select? token part) v

/-- What the pointer of a reference leads to in a document, given what tokens lead to; the empty
pointer leads to the whole. -/
def alongPointer (find : List (List Point) → Option Value) (document : Value) (pointer ref : Text) :
    Except Fault Value :=
  match pointer.toList with
  | [] => .ok document
  | '/' :: rest =>
    match find (pointerTokens (.char '/' :: rest)) with
    | some part => .ok part
    | none => .error (.document (.unresolved ref))
  | _ => .error (.document (.badPointer ref))

/-- The part of a document that the pointer of a reference selects. -/
def resolvePointer (document : Value) (pointer ref : Text) : Except Fault Value :=
  alongPointer (fun tokens => selectAll? tokens document) document pointer ref

/-! ## Inside of itself -/

/-- What a decoded token selects in a value; where the value contains itself, what is selected goes
on as the value does. -/
def enter? (token : List Point) (v : Value) : Option Value :=
  (select? token v).map (v.fill 0)

/-- What a list of decoded tokens selects in a value that may contain itself. -/
def enterAll? (tokens : List (List Point)) (v : Value) : Option Value :=
  tokens.foldlM (fun part token => enter? token part) v

/-- The part of a document that the pointer of a reference selects; the document may contain
itself. -/
def resolveInside (document : Value) (pointer ref : Text) : Except Fault Value :=
  alongPointer (fun tokens => enterAll? tokens document) document pointer ref

end SchemaCodecs.Reference
