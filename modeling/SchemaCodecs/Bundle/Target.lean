/-
# Targets of references

What a reference means depends on the file it stands in: its path is read relative to the directory
of that file, and a reference without a path stays inside the file.  A reference that leads out of
the root document means a part of another file; the part becomes a component schema of the root
document, named after the last token of the pointer or after the file.
-/
import SchemaCodecs.Fault
import SchemaCodecs.FileTree.Path
import SchemaCodecs.Reference.Syntax

namespace SchemaCodecs

open Text

/-! ## The types -/

/-- A part of a file. -/
structure Target where
  /-- The file. -/
  file : Path
  /-- The pointer to the part; the empty pointer means the whole file. -/
  pointer : Text
  deriving DecidableEq, Inhabited

/-- What a reference means, seen from the root document. -/
inductive Meaning where
  /-- What it says: it stands in the root document and stays there. -/
  | itself
  /-- A part of the root document. -/
  | inRoot (pointer : Text)
  /-- A part of another file. -/
  | external (target : Target)
  deriving DecidableEq, Inhabited

/-! ## Meaning -/

/-- The file that the path of a reference leads to from the file it stands in. -/
def fileOf (base : Path) (path : Text) : Path :=
  (if path = "" then base else base.parent.join path).plain

/-- The mark of a path that leads out of the file system. -/
def remoteMark : List Point := ("://" : Text).toList

/-- What a reference in the file `base` means. -/
def meaning (root base : Path) (ref : Text) : Except Fault Meaning :=
  if Reference.isLocal ref && base == root then .ok .itself
  else
    let (path, pointer) := Reference.split ref
    if occursIn remoteMark path.toList then .error (.document (.remote ref))
    else
      match (Path.namesOf path.toList).findSome? NameFault.of? with
      | some fault => .error fault.fault
      | none =>
        let file := fileOf base path
        if file = root then .ok (.inRoot pointer) else .ok (.external ⟨file, pointer⟩)

theorem isPlain_of_meaning {root base : Path} {ref : Text} {target : Target}
    (h : meaning root base ref = .ok (.external target)) : target.file.IsPlain := by
  simp only [meaning] at h
  repeat' split at h
  all_goals cases h
  exact Path.isPlain_plain _

/-! ## Names -/

/-- The name of the component schema that a target becomes. -/
def Target.name (target : Target) : Text :=
  match target.pointer.toList with
  | [] => target.file.stem
  | pointer => Text.ofList (Reference.decodeToken (lastSegment '/' (dropTrailing '/' pointer)))

/-- A reference in the file `base` as it reads in the bundled document. -/
def redirectRef (root base : Path) (ref : Text) : Text :=
  match meaning root base ref with
  | .ok (.inRoot pointer) => "#" ++ pointer
  | .ok (.external target) => Reference.toSchema target.name
  | _ => ref

end SchemaCodecs
