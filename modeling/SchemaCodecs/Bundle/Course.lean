/-
# Going through a value

The references of a value are met on a way through it, from the outside to the inside.  In a
collection that contains itself the way comes back to where it was before, and from then on goes
round without an end.  What it meets in one round it meets in all of them, and after some rounds no
reference reads differently any more.
-/
import SchemaCodecs.Bundle.Site
import SchemaCodecs.FileTree.Path

namespace SchemaCodecs

/-! ## Ways -/

/-- How the way through a value goes on after the references that are met first. -/
inductive Onward where
  /-- It comes to the end of the value. -/
  | through
  /-- It comes to a mark of a collection, with so many collections of the value around in between. -/
  | out (levels : Nat)
  /-- It comes back to a collection of the value, and in every round it meets these references. -/
  | round (sites : List Site)
  deriving DecidableEq, Inhabited

/-- The way through a value. -/
structure Course where
  /-- The references that are met up to the end of the value or the first mark. -/
  sites : List Site := []
  /-- How it goes on. -/
  onward : Onward := .through
  deriving DecidableEq, Inhabited

namespace Course

/-- One way after another; the second one is taken only if the first one comes to its end. -/
def andThen (first second : Course) : Course :=
  match first.onward with
  | .through => ⟨first.sites ++ second.sites, second.onward⟩
  | _ => first

/-- The way through a collection, given the way through its parts. -/
def enclosed (course : Course) : Course :=
  match course.onward with
  | .out 0 => ⟨course.sites, .round course.sites⟩
  | .out (levels + 1) => ⟨course.sites, .out levels⟩
  | _ => course

end Course

namespace Value

mutual

/-- The way through a value. -/
def course : Value → Course
  | scalar (.again place) => ⟨[], .out place.levels⟩
  | scalar _ => {}
  | sequence items => (courseOfItems items).enclosed
  | mapping label entries =>
    Course.enclosed
      (Course.andThen ⟨((refOf? entries).map (Site.mk label)).toList, .through⟩
        (courseOfEntries entries))
  | set _ => {}
  | pair _ _ => {}

/-- The way through the items of a sequence. -/
def courseOfItems : List Value → Course
  | [] => {}
  | item :: rest => (course item).andThen (courseOfItems rest)

/-- The way through the entries of a mapping. -/
def courseOfEntries : List (Scalar × Value) → Course
  | [] => {}
  | (key, v) :: rest =>
    Course.andThen (if isRefKey key then {} else course v) (courseOfEntries rest)

end

/-- Whether going through a value has no end. -/
def isEndless (v : Value) : Bool :=
  v.course.onward != .through

end Value

/-! ## Rounds -/

/-- A number of rounds after which no reference reads differently: every time a reference in the
file `base` is redirected anew, it names something shorter. -/
def roundBound (base : Path) (sites : List Site) : Nat :=
  sites.foldr (fun site total => site.ref.length + base.text.length + 4 + total) 1

/-- The places that are met when a way goes on, as often as it matters. -/
def Onward.sites (base : Path) : Onward → List Site
  | through | out _ => []
  | round sites => (List.replicate (roundBound base sites) sites).flatten

/-- The references that are met on the way through a part of the file `base`. -/
def Value.sitesMet (base : Path) (v : Value) : List Site :=
  v.course.sites ++ v.course.onward.sites base

end SchemaCodecs
