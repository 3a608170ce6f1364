/-
# Scalars

The values without parts.  Two scalars are the same key when they are numbers of one value, points
in time on one instant, or otherwise equal as written.  A value that is no number is the same as
another one only if both come from one place.

A collection that contains itself is a tree with a mark where it is met again.  Only values that are
read from a text with aliases have such marks, and no key is one.
-/
import SchemaCodecs.Number.Binary64
import SchemaCodecs.Value.Calendar

namespace SchemaCodecs

open Number

/-! ## The types -/

/-- Where a value that is no number comes from. -/
inductive NaNOrigin where
  /-- The word for it in JSON texts. -/
  | jsonWord
  /-- The word for it in YAML texts. -/
  | yamlWord
  /-- A number that was computed for a node of a file. -/
  | node (file : Text) (number : Nat)
  deriving DecidableEq, Inhabited

/-- What stands at a place where a collection is met again inside itself. -/
structure Recurrence where
  /-- How many collections lie between the place and the one that is met again. -/
  levels : Nat
  /-- Whether this one is a mapping. -/
  isMapping : Bool
  /-- The file in which it is written. -/
  file : Text
  /-- The number of its node. -/
  number : Nat
  deriving DecidableEq, Inhabited

/-- A value without parts.  The keys of mappings are scalars. -/
inductive Scalar where
  /-- The absent value. -/
  | null
  /-- A truth value. -/
  | bool (b : Bool)
  /-- An integer. -/
  | int (n : Int)
  /-- A number with a binary fraction. -/
  | float (x : Binary64)
  /-- A value in place of a number that is none. -/
  | notANumber (origin : NaNOrigin)
  /-- A text. -/
  | text (s : Text)
  /-- Bytes. -/
  | bytes (bs : List UInt8)
  /-- A day. -/
  | date (d : Date)
  /-- A point in time. -/
  | time (t : DateTime)
  /-- A collection that the place is inside of, and that goes on there as it began. -/
  | again (place : Recurrence)
  deriving DecidableEq, Inhabited

namespace Scalar

/-! ## Sameness -/

/-- The integer that a scalar equals: a truth value counts as 0 or 1, and a float without a
fraction as its integer. -/
def integer? : Scalar → Option Int
  | bool b => some (if b then 1 else 0)
  | int n => some n
  | float x => x.toInt?
  | _ => none

/-- Whether two scalars are the same key: numbers by value, points in time by instant, anything
else as written. -/
def same (a b : Scalar) : Bool :=
  match a.integer?, b.integer? with
  | some m, some n => m == n
  | none, none =>
    match a, b with
    | time t, time u => t.same u
    | _, _ => a == b
  | _, _ => false

/-- Whether a scalar is a value that is no number. -/
def isNaN : Scalar → Bool
  | notANumber _ => true
  | _ => false

/-! ## Truth -/

/-- Whether a scalar counts as true: not the absent value, not zero, no empty text or bytes. -/
def isTruthy : Scalar → Bool
  | null => false
  | bool b => b
  | int n => n != 0
  | float x => !x.isZero
  | notANumber _ => true
  | text s => !s.isEmpty
  | bytes bs => !bs.isEmpty
  | date _ => true
  | time _ => true
  | again _ => true

/-! ## Parts -/

/-- The text of a scalar that is a text. -/
def text? : Scalar → Option Text
  | text s => some s
  | _ => none

end Scalar

end SchemaCodecs
