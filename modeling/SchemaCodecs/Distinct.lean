/-
# First occurrences

A list without the items that repeat an earlier one.
-/
import SchemaCodecs.Text.Basic

namespace SchemaCodecs

/-- The items of a list that are the same as no earlier item, in order. -/
def distinctBy {α : Type} (same : α → α → Bool) : List α → List α
  | [] => []
  | a :: rest => a :: (distinctBy same rest).filter fun b => !same a b

/-- The first occurrences of the texts in a list, in order. -/
def distinctTexts (texts : List Text) : List Text :=
  distinctBy (· == ·) texts

/-- Whether no item of a list is the same as an earlier one. -/
def allDistinctBy {α : Type} (same : α → α → Bool) : List α → Bool
  | [] => true
  | a :: rest => !rest.any (same a) && allDistinctBy same rest

end SchemaCodecs
