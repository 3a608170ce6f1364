/-
# Disks

A disk holds a file tree that is changed in steps.  Besides the refusals of the tree, any step may
be refused from outside: a disk carries the outages that will strike its next steps.  A refused step
leaves the tree as it is; the steps before it are not undone.
-/
import SchemaCodecs.FileTree.Basic

namespace SchemaCodecs

/-- A file tree with the outages to come. -/
structure Disk where
  /-- The tree. -/
  tree : FileTree
  /-- For each of the next steps, the refusal from outside if there is one; later steps have
  none. -/
  outages : List (Option FileFault) := []
  deriving Inhabited

/-- A computation that changes a disk and may be refused. -/
abbrev DiskAction (α : Type) := EStateM FileFault Disk α

namespace Disk

/-! ## Steps -/

/-- A change of the tree in one step. -/
def change (next : FileTree → Except FileFault FileTree) : DiskAction Unit := fun disk =>
  match disk.outages with
  | some fault :: rest => .error fault { disk with outages := rest }
  | outages =>
    match next disk.tree with
    | .ok tree => .ok () { tree, outages := outages.tail }
    | .error fault => .error fault { disk with outages := outages.tail }

/-- Makes a directory. -/
def makeDirectory (path : Path) : DiskAction Unit :=
  change fun tree => tree.makeDirectory path

/-- Makes an empty file where nothing is. -/
def create (path : Path) : DiskAction Unit :=
  change fun tree => tree.create path

/-- Gives a file its content; it is made if it is not there. -/
def write (path : Path) (bytes : List UInt8) : DiskAction Unit :=
  change fun tree => tree.write path bytes

/-- Moves a file, in place of the file that was there. -/
def move (source target : Path) : DiskAction Unit :=
  change fun tree => tree.move source target

/-- Takes a file away; this is never refused. -/
def remove (path : Path) : DiskAction Unit := fun disk =>
  match disk.tree.locate path with
  | .ok place => .ok () { disk with tree := disk.tree.erase place }
  | .error _ => .ok () disk

/-! ## Directories -/

/-- Whether a path leads to a directory. -/
def isDirectory (path : Path) : DiskAction Bool := fun disk =>
  .ok (disk.tree.isDirectory path) disk

/-- An action, with another one for its refusal. -/
def orElse {α : Type} (action : DiskAction α) (rescue : FileFault → DiskAction α) : DiskAction α :=
  fun disk =>
    match action disk with
    | .ok a disk => .ok a disk
    | .error fault disk => rescue fault disk

/-- Accepts a refusal to make a directory if it is there. -/
def acceptDirectory (path : Path) (fault : FileFault) : DiskAction Unit := do
  if ← isDirectory path then return else throw fault

/-- Makes the directory along some names, the last one first in the list, unless it is there, and
the directories above it that are missing. -/
def makeAlong (doubled : Bool) : List Text → DiskAction Unit
  | [] =>
    let path : Path := { names := [], doubled }
    orElse (makeDirectory path) fun
      | .missing path => throw (.missing path)
      | fault => acceptDirectory path fault
  | name :: up =>
    let path : Path := { names := (name :: up).reverse, doubled }
    orElse (makeDirectory path) fun
      | .missing _ => do
        makeAlong doubled up
        orElse (makeDirectory path) fun
          | .missing path => throw (.missing path)
          | fault => acceptDirectory path fault
      | fault => acceptDirectory path fault

/-- Makes a directory unless it is there, and the directories above it that are missing. -/
def makeDirectories (path : Path) : DiskAction Unit :=
  makeAlong path.doubled path.names.reverse

/-- Makes a directory where nothing is, and the directories above it that are missing. -/
def makeNewDirectory (path : Path) : DiskAction Unit :=
  orElse (makeDirectory path) fun
    | .missing _ => do
      makeDirectories path.parent
      makeDirectory path
    | fault => throw fault

end Disk

end SchemaCodecs
