/-
# Values that contain themselves

A collection that contains itself is a finite tree with marks at the places where a collection is
met again.  Going into such a collection means to write it in place of its marks, so that what is
found inside goes on as it does in the collection.
-/
import SchemaCodecs.Value.Basic

namespace SchemaCodecs.Value

/-! ## Marks -/

mutual

/-- Whether no collection is met again in a value. -/
def isFinite : Value → Bool
  | scalar (.again _) => false
  | scalar _ => true
  | sequence items => areFinite items
  | mapping _ entries => entriesFinite entries
  | set _ => true
  | pair first second => isFinite first && isFinite second

/-- Whether no collection is met again in the values of a list. -/
def areFinite : List Value → Bool
  | [] => true
  | v :: rest => isFinite v && areFinite rest

/-- Whether no collection is met again in the values of some entries. -/
def entriesFinite : List (Scalar × Value) → Bool
  | [] => true
  | (_, v) :: rest => isFinite v && entriesFinite rest

end

mutual

/-- A value that is found so many collections inside of another one, with the other one in place of
its marks. -/
def fill (whole : Value) (levels : Nat) : Value → Value
  | scalar (.again place) =>
    if place.levels = levels then whole else scalar (.again place)
  | scalar s => scalar s
  | sequence items => sequence (fillItems whole (levels + 1) items)
  | mapping label entries => mapping label (fillEntries whole (levels + 1) entries)
  | set members => set members
  | pair first second => pair (fill whole levels first) (fill whole levels second)

/-- The items of a sequence with another value in place of its marks. -/
def fillItems (whole : Value) (levels : Nat) : List Value → List Value
  | [] => []
  | v :: rest => fill whole levels v :: fillItems whole levels rest

/-- The entries of a mapping with another value in place of its marks. -/
def fillEntries (whole : Value) (levels : Nat) : List (Scalar × Value) → List (Scalar × Value)
  | [] => []
  | (key, v) :: rest => (key, fill whole levels v) :: fillEntries whole levels rest

end

/-! ## Comparisons without an end -/

mutual

/-- Whether comparing two values comes to collections on both sides that contain themselves, before
it comes to a difference.  Where both are one collection nothing is left to compare. -/
def entangled : Value → Value → Bool
  | scalar (.again here), scalar (.again there) =>
    here.isMapping == there.isMapping &&
      !(here.file == there.file && here.number == there.number)
  | scalar (.again here), sequence items => !here.isMapping && !areFinite items
  | scalar (.again here), mapping _ entries => here.isMapping && !entriesFinite entries
  | sequence items, scalar (.again there) => !there.isMapping && !areFinite items
  | mapping _ entries, scalar (.again there) => there.isMapping && !entriesFinite entries
  | sequence xs, sequence ys => xs.length == ys.length && itemsEntangled xs ys
  | mapping _ xs, mapping _ ys => xs.length == ys.length && entriesEntangled xs ys
  | pair x x', pair y y' => entangled x y || (same x y && entangled x' y')
  | _, _ => false

/-- Whether comparing two lists item by item does so. -/
def itemsEntangled : List Value → List Value → Bool
  | x :: xs, y :: ys => entangled x y || (same x y && itemsEntangled xs ys)
  | _, _ => false

/-- Whether comparing the entries of the first list with those of the second does so. -/
def entriesEntangled : List (Scalar × Value) → Entries → Bool
  | [], _ => false
  | (key, x) :: xs, ys =>
    match Entries.lookup key ys with
    | some y => entangled x y || (same x y && entriesEntangled xs ys)
    | none => false

end

end SchemaCodecs.Value
