/-
# Relocating a value

A part of a file is relocated into the root document by redirecting its references.  What stands
under the key of a reference or in a pair keeps its references, except those of mappings that stand
at another place too.
-/
import SchemaCodecs.Bundle.Course
import SchemaCodecs.Bundle.Target

namespace SchemaCodecs

namespace Value

/-! ## Redirecting references -/

mutual

/-- A value with its references redirected; those of repeated mappings are given. -/
def redirectRefs (settled : Repeated) (redirect : Text → Text) : Value → Value
  | scalar s => scalar s
  | sequence items => sequence (redirectItems settled redirect items)
  | mapping label entries =>
    let own := label.bind fun label => settled.lookup label
    mapping label (redirectEntries settled redirect own entries)
  | set members => set members
  | pair first second => pair (redirectRefs settled id first) (redirectRefs settled id second)

/-- The items of a sequence with their references redirected. -/
def redirectItems (settled : Repeated) (redirect : Text → Text) : List Value → List Value
  | [] => []
  | item :: rest => redirectRefs settled redirect item :: redirectItems settled redirect rest

/-- The entries of a mapping with their references redirected; `own` is the reference of the mapping
itself where that is given. -/
def redirectEntries (settled : Repeated) (redirect : Text → Text) (own : Option Text) :
    List (Scalar × Value) → List (Scalar × Value)
  | [] => []
  | (key, v) :: rest =>
    let v' := if isRefKey key then
        match v with
        | scalar (.text ref) => text (own.getD (redirect ref))
        | v => redirectRefs settled id v
      else redirectRefs settled redirect v
    (key, v') :: redirectEntries settled redirect own rest

end

/-! ## Labels -/

mutual

/-- A value without labels: every mapping stands for itself. -/
def unlabelled : Value → Value
  | scalar s => scalar s
  | sequence items => sequence (unlabelledItems items)
  | mapping _ entries => mapping none (unlabelledEntries entries)
  | set members => set members
  | pair first second => pair (unlabelled first) (unlabelled second)

/-- The items of a sequence without labels. -/
def unlabelledItems : List Value → List Value
  | [] => []
  | item :: rest => unlabelled item :: unlabelledItems rest

/-- The entries of a mapping without labels. -/
def unlabelledEntries : List (Scalar × Value) → List (Scalar × Value)
  | [] => []
  | (key, v) :: rest => (key, unlabelled v) :: unlabelledEntries rest

end

/-! ## Relocation -/

/-- The references in a part of the file `base` in the order in which they are met. -/
def refsMet (root base : Path) (v : Value) : List Text :=
  Site.met (redirectRef root base) [] (v.sitesMet base)

/-- A part of the file `base` with its references as they read in the bundled document. -/
def relocated (root base : Path) (v : Value) : Value :=
  redirectRefs (Site.settled (redirectRef root base) v.sites) (redirectRef root base) v

end Value

end SchemaCodecs
