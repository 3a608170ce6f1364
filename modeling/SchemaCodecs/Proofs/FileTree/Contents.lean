/-
# Trees with other contents

When the files of a tree get other contents, every path still leads to the same place.  What could
not be read before cannot be read afterwards, for the same reason.

* `locate_withContents`, `read_withContents` : following paths and reading files;
* `forall_readDocument_withContents` : comparing what is read with two contents.
-/
import SchemaCodecs.Proofs.Bundle.Gathering

namespace SchemaCodecs

/-- An entry that has the given bytes if it is a file. -/
def Entry.withContent (bytes : List UInt8) : Entry → Entry
  | .directory => .directory
  | .file _ => .file bytes

namespace FileTree

/-- The tree in which every file has the bytes that are given for its path. -/
def withContents (tree : FileTree) (contents : Path → List UInt8) : FileTree :=
  ⟨tree.entries.map fun entry => (entry.1, entry.2.withContent (contents entry.1))⟩

variable (tree : FileTree) (contents : Path → List UInt8)

/-! ## Places -/

/-- At every place stands what stood there, with the new content. -/
theorem find?_withContents (place : Path) :
    (tree.withContents contents).find? place
      = (tree.find? place).map (Entry.withContent (contents place)) := by
  rw [find?, find?]
  split
  · rfl
  · have hfind : ∀ entries : List (Path × Entry),
        ((entries.map fun entry => (entry.1, entry.2.withContent (contents entry.1))).find?
            fun entry => entry.1 = place).map (·.2)
          = ((entries.find? fun entry => entry.1 = place).map (·.2)).map
              (Entry.withContent (contents place)) := by
      intro entries
      rw [List.find?_map, Option.map_map, Option.map_map]
      cases hfound : entries.find? ((fun entry => decide (entry.1 = place)) ∘
          fun entry => (entry.1, entry.2.withContent (contents entry.1))) with
      | none =>
        have hnone : (entries.find? fun entry => decide (entry.1 = place)) = none := hfound
        rw [hnone]
        rfl
      | some entry =>
        have hsome : (entries.find? fun entry => decide (entry.1 = place)) = some entry := hfound
        have hplace : entry.1 = place := by simpa using List.find?_some hsome
        rw [hsome, ← hplace]
        rfl
    exact hfind tree.entries

/-- Names lead to the same directory. -/
theorem enter_withContents (here : Path) (names : List Text) :
    (tree.withContents contents).enter here names = tree.enter here names := by
  induction names generalizing here with
  | nil => rfl
  | cons name rest ih =>
    rw [enter, enter, find?_withContents]
    split
    · rfl
    · cases tree.find? (here.step name) with
      | none => rfl
      | some entry =>
        cases entry with
        | directory => exact ih (here.step name)
        | file bytes => rfl

/-- A path leads to the same place. -/
theorem locate_withContents (path : Path) :
    (tree.withContents contents).locate path = tree.locate path := by
  have hfollow : (tree.withContents contents).follow path.names = tree.follow path.names := by
    unfold follow
    split
    · rfl
    · rw [enter_withContents]
  rw [locate, locate, hfollow]

/-! ## Reading -/

/-- A file is read with its new content. -/
theorem read_withContents {path : Path} (plain : path.IsPlain) :
    (tree.withContents contents).read path = (tree.read path).map fun _ => contents path := by
  rw [read, read, lookup, lookup, locate_withContents]
  cases hlocate : tree.locate path with
  | error fault => rfl
  | ok place =>
    obtain rfl := locate_eq hlocate plain
    simp only [bind, Except.bind, find?_withContents]
    cases tree.find? place with
    | none => rfl
    | some entry => cases entry <;> rfl

/-- What is read with two contents is related at each file if it is at the entries of the tree. -/
theorem forall_readDocument_withContents {tree : FileTree} {contents others : Path → List UInt8}
    {R : Except Fault Value → Except Fault Value → Prop}
    (fails : ∀ fault, R (.error fault) (.error fault))
    (reads : ∀ entry ∈ tree.entries, R (readDocument (tree.withContents contents) entry.1)
      (readDocument (tree.withContents others) entry.1)) {file : Path} (plain : file.IsPlain) :
    R (readDocument (tree.withContents contents) file)
      (readDocument (tree.withContents others) file) := by
  cases hread : tree.read file with
  | error fault =>
    rw [readDocument, readDocument, read_withContents _ _ plain, read_withContents _ _ plain, hread]
    exact fails _
  | ok bytes =>
    obtain ⟨entry, hentry, rfl⟩ := exists_entry_of_read hread plain
    exact reads entry hentry

end FileTree

end SchemaCodecs
