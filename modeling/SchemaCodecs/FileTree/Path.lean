/-
# Paths

A path leads from the root of the file tree to a directory or file.  The name `..` on it means the
directory above.  A text is read as a path relative to a directory, unless it starts with a slash.
Two slashes at the front lead to the same places as one, but stay two in the text of the path.
-/
import SchemaCodecs.Text.Segment

namespace SchemaCodecs

open Text

/-! ## Names -/

/-- Why a text is not the name of a directory or file. -/
inductive NameFault where
  /-- It holds a lone surrogate that stands for no byte. -/
  | unencodable
  /-- It holds the character NUL. -/
  | nul
  deriving DecidableEq, Inhabited

/-- Why a text, of a name or of a whole path, names nothing, if that is so: it is encoded first. -/
def NameFault.of? (text : Text) : Option NameFault :=
  if !text.toList.all Point.isNameable then some .unencodable
  else if text.toList.contains '\x00' then some .nul
  else none

/-! ## Paths -/

/-- The names on the way from the root. -/
structure Path where
  /-- The names in order. -/
  names : List Text
  /-- Whether the text of the path begins with two slashes. -/
  doubled : Bool := false
  deriving DecidableEq, Inhabited

namespace Path

/-! ## Parts -/

/-- The root of the file tree. -/
def root : Path := { names := [] }

/-- The name that means the directory above. -/
def above : Text := ".."

/-- The path of a thing in a directory. -/
def child (path : Path) (name : Text) : Path := { path with names := path.names ++ [name] }

/-- The path without its last name. -/
def parent (path : Path) : Path := { path with names := path.names.dropLast }

/-- The last name of a path; the root has the empty name. -/
def name (path : Path) : Text := path.names.getLast?.getD ""

/-- The last name of a path up to its first dot. -/
def stem (path : Path) : Text := Text.ofList (cutFirst '.' path.name.toList).1

/-- Whether the character NUL occurs in a path. -/
def hasNul (path : Path) : Bool := path.names.any fun name => name.toList.contains '\x00'

/-- The text of a path. -/
def text (path : Path) : Text :=
  (if path.doubled then "//" else "/") ++ joinWith "/" path.names

/-- The first name on a path that no directory or file has, and why. -/
def nameFault? (path : Path) : Option NameFault := path.names.findSome? NameFault.of?

/-! ## Reading -/

/-- The names in a text, without those that mean the place itself. -/
def namesOf (text : List Point) : List Text :=
  ((segments '/' text).map Text.ofList).filter fun name => name != "" && name != "."

/-- The path that a text means in a directory. -/
def join (directory : Path) (text : Text) : Path :=
  match text.toList with
  | '/' :: '/' :: '/' :: rest => { names := namesOf rest }
  | '/' :: '/' :: rest => { names := namesOf rest, doubled := true }
  | '/' :: rest => { names := namesOf rest }
  | cs => { directory with names := directory.names ++ namesOf cs }

/-! ## Plain paths -/

/-- One name further on a path without `..`: the name `..` takes the last name away. -/
def step (here : Path) (name : Text) : Path :=
  if name = above then here.parent else here.child name

/-- The path without `..` that leads to the same place, as every name means a directory. -/
def plain (path : Path) : Path := path.names.foldl step root

/-- A path with a single slash at the front and without `..` on it. -/
def IsPlain (path : Path) : Prop := path.doubled = false ∧ above ∉ path.names

/-- A step from a plain path leads to one. -/
theorem isPlain_step {here : Path} (name : Text) (h : here.IsPlain) :
    (here.step name).IsPlain := by
  unfold step
  split
  · exact ⟨h.1, fun hm => h.2 (List.dropLast_subset _ hm)⟩
  · next hne =>
    refine ⟨h.1, ?_⟩
    simp only [child, List.mem_append, List.mem_singleton, not_or]
    exact ⟨h.2, fun he => hne he.symm⟩

/-- The plain form of a path is a plain path. -/
theorem isPlain_plain (path : Path) : path.plain.IsPlain := by
  suffices ∀ (names : List Text) (here : Path), here.IsPlain →
      (names.foldl step here).IsPlain from this path.names root ⟨rfl, by simp [root]⟩
  intro names
  induction names with
  | nil => exact fun _ h => h
  | cons name rest ih => exact fun here h => ih _ (isPlain_step name h)

/-- A plain path is its own plain form. -/
theorem plain_of_isPlain {path : Path} (h : path.IsPlain) : path.plain = path := by
  have hfold : ∀ (names : List Text) (here : Path), above ∉ names →
      names.foldl step here = { here with names := here.names ++ names } := by
    intro names
    induction names with
    | nil => simp
    | cons name rest ih =>
      intro here habove
      rw [List.mem_cons, not_or] at habove
      rw [List.foldl_cons, step, if_neg (Ne.symm habove.1), ih _ habove.2, child]
      simp
  obtain ⟨names, doubled⟩ := path
  obtain ⟨rfl, habove⟩ := h
  exact hfold names root habove

end Path

end SchemaCodecs
