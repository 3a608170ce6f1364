/-
# Values

The values a document is made of: scalars, sequences, and mappings whose entries keep the order in
which they were written; sets and pairs are rare.  A mapping may carry a label; two mappings of one
document with the same label are one and the same mapping, written at one place and repeated at
another.
-/
import SchemaCodecs.Value.Scalar

namespace SchemaCodecs

/-! ## The types -/

/-- A value of a document. -/
inductive Value where
  /-- A value without parts. -/
  | scalar (s : Scalar)
  /-- Values in order. -/
  | sequence (items : List Value)
  /-- Values by key, in order; mappings with the same label are one mapping. -/
  | mapping (label : Option Nat) (entries : List (Scalar × Value))
  /-- Different scalars, in the order in which they are gone through. -/
  | set (members : List Scalar)
  /-- Two values that belong together. -/
  | pair (first second : Value)
  deriving Inhabited

/-- The entries of a mapping in order. -/
abbrev Entries := List (Scalar × Value)

namespace Value

/-- The absent value. -/
abbrev null : Value := .scalar .null

/-- A truth value. -/
abbrev bool (b : Bool) : Value := .scalar (.bool b)

/-- An integer. -/
abbrev int (n : Int) : Value := .scalar (.int n)

/-- A text. -/
abbrev text (s : Text) : Value := .scalar (.text s)

/-- A mapping that stands at one place only. -/
abbrev table (entries : Entries) : Value := .mapping none entries

end Value

/-! ## Mappings -/

namespace Entries

/-- The value under a key. -/
def lookup (key : Scalar) (entries : Entries) : Option Value :=
  (entries.find? fun entry => entry.1.same key).map (·.2)

/-- The value under a key that is a text. -/
def get? (key : Text) (entries : Entries) : Option Value :=
  lookup (.text key) entries

/-- Whether there is an entry with the given text as its key. -/
def hasKey (key : Text) (entries : Entries) : Bool :=
  (get? key entries).isSome

/-- Entries with the value under one key replaced; a new key comes last, a key that is already
there keeps its place and its spelling. -/
def put {α : Type} (key : Scalar) (value : α) : List (Scalar × α) → List (Scalar × α)
  | [] => [(key, value)]
  | entry :: rest =>
    if entry.1.same key then (entry.1, value) :: rest else entry :: put key value rest

/-- The mapping that a list of pairs describes: of several values for one key the last counts, at
the place of the first. -/
def ofPairs {α : Type} (pairs : List (Scalar × α)) : List (Scalar × α) :=
  pairs.foldl (fun entries pair => put pair.1 pair.2 entries) []

end Entries

/-! ## Truth -/

namespace Value

/-- Whether a value counts as true; a sequence, mapping or set does unless it is empty. -/
def isTruthy : Value → Bool
  | scalar s => s.isTruthy
  | sequence items => !items.isEmpty
  | mapping _ entries => !entries.isEmpty
  | set members => !members.isEmpty
  | pair _ _ => true

/-- The value itself if it counts as true. -/
def truthy? (v : Value) : Option Value :=
  if v.isTruthy then some v else none

/-- The text of a value that is a text. -/
def text? : Value → Option Text
  | scalar s => s.text?
  | _ => none

end Value

/-! ## Sameness of values -/

namespace Value

mutual

/-- Whether two values are the same: scalars as keys, sequences item by item, mappings entry by
entry in any order, sets by their members.  Labels do not matter. -/
def same : Value → Value → Bool
  | scalar a, scalar b => a.same b
  | sequence xs, sequence ys => sameItems xs ys
  | mapping _ xs, mapping _ ys => xs.length == ys.length && sameEntries xs ys
  | set xs, set ys => xs.length == ys.length && xs.all fun x => ys.any (x.same ·)
  | pair x x', pair y y' => same x y && same x' y'
  | _, _ => false

/-- Whether two lists of values are the same item by item. -/
def sameItems : List Value → List Value → Bool
  | [], [] => true
  | x :: xs, y :: ys => same x y && sameItems xs ys
  | _, _ => false

/-- Whether every entry of the first list has an entry with the same key and value in the second. -/
def sameEntries : List (Scalar × Value) → Entries → Bool
  | [], _ => true
  | (key, x) :: xs, ys =>
    (match Entries.lookup key ys with
      | some y => same x y
      | none => false) && sameEntries xs ys

end

/-- Whether a value is one that is no number. -/
def isNaN : Value → Bool
  | scalar s => s.isNaN
  | _ => false

/-- Whether two values are equal.  This is sameness, except that a value that is no number does not
equal itself when it stands alone. -/
def equals (a b : Value) : Bool :=
  same a b && !a.isNaN

end Value

end SchemaCodecs
