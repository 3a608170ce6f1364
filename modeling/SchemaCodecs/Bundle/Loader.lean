/-
# Loaders

A loader answers one call after another.  Its state holds trees: those of the files it has read, which
it keeps for all calls, and copies of parts of them, whose references it redirects in place.  A call
begins by giving up what the calls before have left, the targets and the copies; what a call that
fails has registered by then is left to the next one.

The answers are those of `load` and `bundle`, which have neither trees to change nor anything to give
up.
-/
import SchemaCodecs.Bundle.Load

namespace SchemaCodecs

/-! ## The state -/

/-- A copy of a part of a file. -/
structure Copy where
  /-- What was copied. -/
  target : Target
  /-- The tree of the file. -/
  origin : Nat
  /-- The tree of the copy. -/
  tree : Nat
  deriving Inhabited

/-- The state of a loader. -/
structure Loader where
  /-- All trees, by number. -/
  trees : List Value := []
  /-- The trees of the files read, the last one first. -/
  files : List (Path × Nat) := []
  /-- The file of the root document of the last call. -/
  root : Path := Path.root
  /-- The targets registered by the last call, the last one first. -/
  targets : List Target := []
  /-- The copies made by the last call, each name once, in the order of the first ones. -/
  copies : List Copy := []
  deriving Inhabited

/-- What a loader can be asked for. -/
inductive Call where
  /-- To load the document in a file. -/
  | load (path : Path)
  /-- To bundle a document, as one that stands in a file. -/
  | bundle (document : Value) (path : Path)

namespace Loader

/-- The tree with a number. -/
def tree (loader : Loader) (number : Nat) : Value :=
  loader.trees.getD number .null

/-- The loader with one more tree, which has the number of the trees before. -/
def addTree (loader : Loader) (v : Value) : Loader :=
  { loader with trees := loader.trees ++ [v] }

/-- The loader with a tree changed in place. -/
def changeTree (loader : Loader) (number : Nat) (v : Value) : Loader :=
  { loader with trees := loader.trees.set number v }

/-- The documents of the files read. -/
def shelf (loader : Loader) : Shelf :=
  ⟨loader.files.map fun entry => (entry.1, loader.tree entry.2)⟩

/-- The part of a file that a copy was made from. -/
def source (loader : Loader) (copy : Copy) : Value :=
  (Reference.resolveInside (loader.tree copy.origin) copy.target.pointer "").toOption.getD .null

/-! ## Files -/

/-- The loader after the document of a file has been read. -/
def keepFile (loader : Loader) (file : Path) (document : Value) : Loader :=
  { loader.addTree document with files := (file, loader.trees.length) :: loader.files }

/-- The tree of a file, which is read if that has not been done before. -/
def fetch (disk : FileTree) (loader : Loader) (file : Path) : Except Fault Nat × Loader :=
  match loader.files.lookup file with
  | some number => (.ok number, loader)
  | none =>
    match readDocument disk file with
    | .error fault => (.error fault, loader)
    | .ok document => (.ok loader.trees.length, loader.keepFile file document)

/-- How many files of a disk have not been read. -/
def unread (disk : FileTree) (loader : Loader) : Nat :=
  disk.entries.countP fun entry => (loader.files.lookup entry.1).isNone

/-- A file that is read for the first time is one file less to read. -/
theorem unread_keepFile_lt {disk : FileTree} {loader : Loader} {file : Path} {document : Value}
    (new : loader.files.lookup file = none) (read : readDocument disk file = .ok document)
    (plain : file.IsPlain) : (loader.keepFile file document).unread disk < loader.unread disk := by
  obtain ⟨entry, mem, rfl⟩ := exists_entry_of_readDocument read plain
  refine countP_lt_countP (fun other => ?_) mem (by simp [new]) (by simp [keepFile])
  simp only [keepFile, List.lookup_cons]
  split <;> simp

/-! ## Targets -/

/-- Copies with one more, which takes the place of the one of its name if there is one. -/
def putCopy (copy : Copy) : List Copy → List Copy
  | [] => [copy]
  | other :: rest =>
    if other.target.name == copy.target.name then copy :: rest else other :: putCopy copy rest

/-- The part of a tree that a target denotes, unless it differs from what a copy of its name was made
from. -/
def part (loader : Loader) (target : Target) (number : Nat) (ref : Text) :
    Except Fault Value := do
  let found ← Reference.resolveInside (loader.tree number) target.pointer ref
  match loader.copies.find? fun copy => copy.target.name == target.name with
  | some copy =>
    if (loader.source copy).equals found then return found
    else throw ((loader.source copy).difference found (.conflicting target.name))
  | none => return found

/-- The loader after a part of a tree has been copied for a target. -/
def register (loader : Loader) (target : Target) (number : Nat) (found : Value) : Loader :=
  { loader.addTree found with
    targets := target :: loader.targets
    copies := putCopy ⟨target, number, loader.trees.length⟩ loader.copies }

/-! ## Following references -/

/-- What remains to be done. -/
inductive Chore where
  /-- To follow a reference that stands in the file `base`. -/
  | follow (base : Path) (ref : Text)
  /-- To redirect the references of a copy of a part of a file. -/
  | redirect (number : Nat) (file : Path)
  /-- To go round without an end. -/
  | goRound

/-- The chores for the references in a tree. -/
def chores (loader : Loader) (base : Path) (number : Nat) : List Chore :=
  ((loader.tree number).refsMet loader.root base).map (Chore.follow base) ++
    if (loader.tree number).isEndless then [.goRound] else []

/-- The loader after the references of a tree have been redirected in place. -/
def redirectTree (loader : Loader) (number : Nat) (file : Path) : Loader :=
  loader.changeTree number ((loader.tree number).relocated loader.root file)

/-- The loader after a target has been registered, with the chores that this brings. -/
def enter (loader : Loader) (target : Target) (number : Nat) (found : Value) :
    Loader × List Chore :=
  let entered := loader.register target number found
  (entered, entered.chores target.file loader.trees.length ++
    [.redirect loader.trees.length target.file])

/-- Does chores in order; those that a target brings with it come first.  An allowance that is used up
would end the work. -/
def work (disk : FileTree) (loader : Loader) (allowance : Nat) :
    List Chore → Except Fault Unit × Loader
  | [] => (.ok (), loader)
  | .redirect number file :: rest => (loader.redirectTree number file).work disk allowance rest
  | .goRound :: _ => (.error .endless, loader)
  | .follow base ref :: rest =>
    match meant : meaning loader.root base ref with
    | .error fault => (.error fault, loader)
    | .ok .itself | .ok (.inRoot _) => loader.work disk allowance rest
    | .ok (.external target) =>
      if loader.targets.contains target then loader.work disk allowance rest
      else
        match found : loader.files.lookup target.file with
        | some number =>
          match loader.part target number ref with
          | .error fault => (.error fault, loader)
          | .ok part =>
            match allowance with
            | 0 => (.ok (), loader.register target number part)
            | allowance + 1 =>
              (loader.enter target number part).1.work disk allowance
                ((loader.enter target number part).2 ++ rest)
        | none =>
          match read : readDocument disk target.file with
          | .error fault => (.error fault, loader)
          | .ok document =>
            have := unread_keepFile_lt found read (isPlain_of_meaning meant)
            let loader' := loader.keepFile target.file document
            match loader'.part target loader.trees.length ref with
            | .error fault => (.error fault, loader')
            | .ok part =>
              (loader'.enter target loader.trees.length part).1.work disk
                (allowance + allowanceFor target.file document)
                ((loader'.enter target loader.trees.length part).2 ++ rest)
termination_by chores => (loader.unread disk, allowance, chores.length)
decreasing_by
  · exact .right _ (.right _ (Nat.lt_succ_self _))
  · exact .right _ (.right _ (Nat.lt_succ_self _))
  · exact .right _ (.right _ (Nat.lt_succ_self _))
  · exact .right _ (.right _ (Nat.lt_succ_self _))
  · exact .right _ (.left _ _ (Nat.lt_succ_self _))
  · exact .left _ _ this

/-! ## Bundling -/

/-- The component schemas with all copies added. -/
def addCopies (loader : Loader) (schemas : Entries) : Except Fault Entries :=
  loader.copies.foldlM (fun schemas copy => addSchema schemas copy.target.name
    (loader.tree copy.tree).unlabelled (loader.source copy)) schemas

/-- The loader after the copies have been added to a tree, with the number of the tree. -/
def finish (loader : Loader) (number : Nat) : Except Fault Nat × Loader :=
  if loader.copies.isEmpty then (.ok number, loader)
  else
    match changeSchemas loader.addCopies (loader.tree number) with
    | .error fault => (.error fault, loader)
    | .ok document => (.ok number, loader.changeTree number document)

/-- The loader at the beginning of a call, with a copy of the root document. -/
def start (loader : Loader) (root : Path) (document : Value) : Loader :=
  { loader.addTree document with root, targets := [], copies := [] }

/-- Bundles a document, as one that stands in a file; the answer is the number of a tree. -/
def bundle (disk : FileTree) (loader : Loader) (root : Path) (document : Value) :
    Except Fault Nat × Loader :=
  let number := loader.trees.length
  let started := loader.start root document
  match started.work disk (allowanceOf loader.shelf root document) (started.chores root number) with
  | (.error fault, loader) => (.error fault, loader)
  | (.ok (), loader) => (loader.redirectTree number root).finish number

/-- Loads the document in a file; the answer is the number of a tree. -/
def load (disk : FileTree) (loader : Loader) (path : Path) : Except Fault Nat × Loader :=
  match resolveFile path with
  | .error fault => (.error fault, loader)
  | .ok file =>
    match { loader with root := file }.fetch disk file with
    | (.error fault, loader) => (.error fault, loader)
    | (.ok number, loader) =>
      match checkDocument (loader.tree number) with
      | .error fault => (.error fault, loader)
      | .ok document => loader.bundle disk file document

/-- Does what a loader is asked for; the answer is the number of a tree. -/
def ask (disk : FileTree) (loader : Loader) : Call → Except Fault Nat × Loader
  | .load path => loader.load disk path
  | .bundle document path =>
    match resolveFile path with
    | .error fault => (.error fault, loader)
    | .ok file => loader.bundle disk file document

/-- The trees that a call hands out: that of the answer, and the copies that stand in it. -/
def handedOut : Except Fault Nat × Loader → List Nat
  | (.ok number, loader) => number :: loader.copies.map Copy.tree
  | (.error _, _) => []

/-- The document that an answer stands for: every mapping of the tree stands for itself. -/
def document (loader : Loader) (number : Nat) : Value :=
  (loader.tree number).unlabelled

end Loader

end SchemaCodecs
