/-
# References in a value

The places of a value that hold a reference, in the order in which they are met: the reference of a
mapping comes before those in its entries, and what stands under the key of a reference or in a pair
holds none.
A mapping that stands at several places is met several times; from the second time on its reference
reads as the first time has left it.
-/
import SchemaCodecs.Reference.Syntax
import SchemaCodecs.Value.Basic

namespace SchemaCodecs

/-- A mapping with a reference. -/
structure Site where
  /-- The label of the mapping. -/
  label : Option Nat
  /-- The reference. -/
  ref : Text
  deriving DecidableEq, Inhabited

/-! ## Finding references -/

/-- Whether a key is the one under which a reference stands. -/
def isRefKey (key : Scalar) : Bool := key.same (.text Reference.refKey)

/-- The reference that a list of entries holds, if it is a text. -/
def refOf? (entries : Entries) : Option Text :=
  (Entries.get? Reference.refKey entries).bind Value.text?

namespace Value

mutual

/-- The references in a value in the order in which they are met. -/
def sites : Value → List Site
  | scalar _ => []
  | sequence items => sitesOfItems items
  | mapping label entries =>
    ((refOf? entries).map (Site.mk label)).toList ++ sitesOfEntries entries
  | set _ => []
  | pair _ _ => []

/-- The references in the items of a sequence. -/
def sitesOfItems : List Value → List Site
  | [] => []
  | item :: rest => sites item ++ sitesOfItems rest

/-- The references in the entries of a mapping. -/
def sitesOfEntries : List (Scalar × Value) → List Site
  | [] => []
  | (key, v) :: rest => (if isRefKey key then [] else sites v) ++ sitesOfEntries rest

end

mutual

/-- Every reference in a value, also those under the key of a reference or in a pair. -/
def allRefs : Value → List Text
  | scalar _ => []
  | sequence items => allRefsOfItems items
  | mapping _ entries => (refOf? entries).toList ++ allRefsOfEntries entries
  | set _ => []
  | pair first second => allRefs first ++ allRefs second

/-- Every reference in the items of a sequence. -/
def allRefsOfItems : List Value → List Text
  | [] => []
  | item :: rest => allRefs item ++ allRefsOfItems rest

/-- Every reference in the entries of a mapping. -/
def allRefsOfEntries : List (Scalar × Value) → List Text
  | [] => []
  | (_, v) :: rest => allRefs v ++ allRefsOfEntries rest

end

end Value

/-! ## Meeting references -/

/-- The references of repeated mappings as they read at a time, by label. -/
abbrev Repeated := List (Nat × Text)

namespace Site

/-- How the reference of a site reads at a time. -/
def current (repeated : Repeated) (site : Site) : Text :=
  (site.label.bind fun label => repeated.lookup label).getD site.ref

/-- The references of repeated mappings after a site has been met. -/
def afterwards (redirect : Text → Text) (repeated : Repeated) (site : Site) : Repeated :=
  match site.label with
  | none => repeated
  | some label => (label, redirect (site.current repeated)) :: repeated

/-- The references of some sites as they read when they are met. -/
def met (redirect : Text → Text) (repeated : Repeated) : List Site → List Text
  | [] => []
  | site :: rest =>
    site.current repeated :: met redirect (site.afterwards redirect repeated) rest

/-- The references of repeated mappings after some sites have been met. -/
def settled (redirect : Text → Text) (sites : List Site) : Repeated :=
  sites.foldl (afterwards redirect) []

end Site

end SchemaCodecs
