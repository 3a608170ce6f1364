/-
# The order of sets

The order in which the members of a set are gone through.  Numbers stand in a table at places that
their values ask for, and are gone through by place; the place is the remainder on division by the
size of the table, or one of those tried after it if an earlier number stands there.  Members that
are no numbers come last, in the order in which they were written.
-/
import SchemaCodecs.Distinct
import SchemaCodecs.Value.Scalar

namespace SchemaCodecs.Scalar

open Number

/-! ## Remainders -/

/-- The prime modulo which numbers ask for places. -/
def placePrime : Nat :=
  Nat.pow 2 61 - 1

/-- The remainder of an integer with its sign; -2 stands in for -1. -/
def signedResidue (n : Int) : Int :=
  let residue := n.tmod placePrime
  if residue = -1 then -2 else residue

/-- The remainder of a number, in which dividing by two is multiplying by the sixtieth power of two;
an empty text counts as zero. -/
def residue? : Scalar → Option Int
  | bool b => some (if b then 1 else 0)
  | int n => some (signedResidue n)
  | float x =>
    let signed (n : Nat) : Int := if x.isNegative then -n else n
    if x.isNaN then none
    else if x.isInfinite then some (signed 314159)
    else some (signedResidue (signed (x.significand * Nat.pow 2 (x.scale % 61).toNat)))
  | text (.ofList []) | bytes [] => some 0
  | _ => none

/-! ## Tables -/

/-- Numbers in a table, each with its place. -/
structure PlaceTable where
  /-- The number of places, a power of two. -/
  size : Nat
  /-- The numbers that stand in the table. -/
  placed : List (Nat × Scalar) := []
  deriving Inhabited

namespace PlaceTable

/-- The first power of two above a bound, from a given one on; the first number is the number of
doublings tried. -/
def powerAbove (bound : Nat) : Nat → Nat → Nat
  | 0, size => size
  | fuel + 1, size => if bound < size then size else powerAbove bound fuel (2 * size)

/-- The first free place that is tried from a place on: the next nine if the table has them, then
places that further digits of the remainder choose.  The first number bounds the choices. -/
def freePlace (table : PlaceTable) : Nat → Nat → Nat → Nat
  | 0, place, _ => place
  | fuel + 1, place, digits =>
    let reach := if place + 9 < table.size then 10 else 1
    let isFree (step : Nat) : Bool := table.placed.all fun other => other.1 != place + step
    match (List.range reach).find? isFree with
    | some step => place + step
    | none =>
      let digits := digits / 32
      table.freePlace fuel ((5 * place + 1 + digits) % table.size) digits

/-- The table with one more number. -/
def enter (table : PlaceTable) (s : Scalar) : PlaceTable :=
  let digits := ((s.residue?.getD 0) % Nat.pow 2 64).toNat
  let place := table.freePlace (table.size + 16) (digits % table.size) digits
  { table with placed := (place, s) :: table.placed }

/-- The numbers in a table in the order of their places. -/
def inOrder (table : PlaceTable) : List Scalar :=
  (table.placed.mergeSort fun a b => decide (a.1 ≤ b.1)).map (·.2)

/-- A table of at least eight places, more than a bound, in which numbers enter in order. -/
def ofNumbers (bound : Nat) (numbers : List Scalar) : PlaceTable :=
  numbers.foldl enter { size := powerAbove bound bound 8 }

/-- The table with one more number; once three fifths of the places are taken, the table is made
anew with more than four places for each number. -/
def enterGrowing (table : PlaceTable) (s : Scalar) : PlaceTable :=
  let table := table.enter s
  let members := table.placed.length
  if 5 * members < 3 * (table.size - 1) then table else ofNumbers (4 * members) table.inOrder

end PlaceTable

/-! ## Sets -/

/-- The members of a set in the order in which they are gone through.  The numbers enter a table
that has two places for each from the beginning, and then in that order a table that grows. -/
def setOf (members : List Scalar) : List Scalar :=
  let distinct := distinctBy same members
  let numbers := distinct.filter fun s => s.residue?.isSome
  let others := distinct.filter fun s => s.residue?.isNone
  let bound := if distinct.length ≤ 4 then 0 else 2 * distinct.length
  let ordered := (PlaceTable.ofNumbers bound numbers).inOrder
  (ordered.foldl PlaceTable.enterGrowing { size := 8 }).inOrder ++ others

end SchemaCodecs.Scalar
