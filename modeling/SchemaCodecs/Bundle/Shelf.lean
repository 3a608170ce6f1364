/-
# Shelves

The documents read so far, by file.  A file is read once; only what could be read and is well formed
is kept.
-/
import SchemaCodecs.Count
import SchemaCodecs.FileTree.Basic
import SchemaCodecs.Yaml.Document

namespace SchemaCodecs

/-! ## Reading -/

/-- The value of the YAML text in a file: line ends are normalised first. -/
def readText (file : Path) (bytes : List UInt8) : Yaml.Reading Value :=
  match Text.decodeUtf8 bytes with
  | .error fault => .error (Yaml.cutShort (Text.normalizeLineEnds (fault.front bytes).toList))
  | .ok text => Yaml.read file.text (Text.normalizeLineEnds text.toList)

/-- The document in a file with the given bytes. -/
def parseDocument (file : Path) (bytes : List UInt8) : Except Fault Value :=
  match readText file bytes with
  | .ok v => .ok v
  | .error .malformed => .error (.document (.unparsable file.text))
  | .error (.content fault) => .error fault

/-- The document in a file. -/
def readDocument (tree : FileTree) (file : Path) : Except Fault Value :=
  match tree.read file with
  | .error cause => .error (.document (.unreadable file.text cause))
  | .ok bytes => parseDocument file bytes

/-- A document that is read stands in an entry of the tree. -/
theorem exists_entry_of_readDocument {tree : FileTree} {file : Path} {document : Value}
    (h : readDocument tree file = .ok document) (plain : file.IsPlain) :
    ∃ entry ∈ tree.entries, entry.1 = file := by
  unfold readDocument at h
  split at h
  · cases h
  · next hread => exact FileTree.exists_entry_of_read hread plain

/-! ## Shelves -/

/-- Documents by file. -/
structure Shelf where
  /-- The documents, the last one read first. -/
  documents : List (Path × Value) := []
  deriving Inhabited

namespace Shelf

/-- The document of a file. -/
def find? (shelf : Shelf) (file : Path) : Option Value :=
  shelf.documents.lookup file

/-- The shelf with one more document. -/
def add (shelf : Shelf) (file : Path) (document : Value) : Shelf :=
  ⟨(file, document) :: shelf.documents⟩

/-- The document of a file, which is read if it is not on the shelf, and the shelf afterwards. -/
def fetch (shelf : Shelf) (tree : FileTree) (file : Path) : Except Fault (Value × Shelf) :=
  match shelf.find? file with
  | some document => .ok (document, shelf)
  | none => do
    let document ← readDocument tree file
    return (document, shelf.add file document)

/-- How many files of a tree are not on the shelf. -/
def unread (shelf : Shelf) (tree : FileTree) : Nat :=
  tree.entries.countP fun entry => (shelf.find? entry.1).isNone

/-- A file that is read for the first time is one file less to read. -/
theorem unread_add_lt {shelf : Shelf} {tree : FileTree} {file : Path} {document : Value}
    (new : shelf.find? file = none) (read : readDocument tree file = .ok document)
    (plain : file.IsPlain) :
    (shelf.add file document).unread tree < shelf.unread tree := by
  obtain ⟨entry, mem, rfl⟩ := exists_entry_of_readDocument read plain
  refine countP_lt_countP (fun other => ?_) mem (by simp [new]) (by simp [find?, add])
  simp only [find?, add, List.lookup_cons]
  split <;> simp

end Shelf

end SchemaCodecs
