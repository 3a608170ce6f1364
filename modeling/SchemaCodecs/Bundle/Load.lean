/-
# Loading documents

A document is loaded by reading its file and bundling it: every reference that leads out of the
document is redirected to one of its component schemas, and what it means is added there.

Documents may be nested to any depth, and references may lead from part to part any number of times.
That a run bounds the depth of its calls, and ends where that is exceeded, is left out; only what has
no end at all, such as going through a document that contains itself, is a fault.
-/
import SchemaCodecs.Bundle.Install
import SchemaCodecs.Compile

namespace SchemaCodecs

/-! ## Bundling -/

/-- The report on all schemas. -/
def bundledCount (bundled : List Bundled) : List LogRecord :=
  if bundled.isEmpty then []
  else [⟨.loader, .debug, "Bundled " ++ Text.numeral bundled.length ++ " external schemas"⟩]

/-- The allowance for the references of a document and of all documents on a shelf. -/
def allowanceOf (shelf : Shelf) (root : Path) (document : Value) : Nat :=
  allowanceFor root document +
    shelf.documents.foldr (fun entry total => allowanceFor entry.1 entry.2 + total) 0

/-- The targets of all references of a document. -/
def gatherFrom (tree : FileTree) (shelf : Shelf) (root : Path) (document : Value) : Gathered :=
  gather tree root shelf (allowanceOf shelf root document) {} (tasksFor root root document)

/-- A document in which no reference leads out of it, with the shelf afterwards. -/
def bundle (tree : FileTree) (shelf : Shelf) (root : Path) (document : Value) :
    Shelf × Logged Value :=
  let gathered := gatherFrom tree shelf root document
  let finished : Logged Value := do
    Traced.note gathered.log
    let gathering ← gathered.outcome
    let document ← install root (document.relocated root root) gathering.schemas
    Traced.note (bundledCount gathering.schemas)
    return document.unlabelled
  (gathered.shelf, finished)

/-! ## Loading -/

/-- The file that a path means; every name on it has to be one that a directory or file can have. -/
def resolveFile (path : Path) : Except Fault Path :=
  match path.nameFault? with
  | some fault => .error fault.fault
  | none => .ok path.plain

/-- The bundled document in a file, with the shelf afterwards. -/
def load (tree : FileTree) (shelf : Shelf) (path : Path) : Shelf × Logged Value :=
  let fetched : Except Fault (Path × Value × Shelf) := do
    let file ← resolveFile path
    let (document, shelf) ← shelf.fetch tree file
    return (file, document, shelf)
  match fetched with
  | .error fault => (shelf, Traced.fail fault)
  | .ok (file, document, shelf) =>
    match checkDocument document with
    | .error fault => (shelf, Traced.fail fault)
    | .ok document => bundle tree shelf file document

/-- The bundled document in a file of a tree, of which nothing has been read before. -/
def loadDocument (tree : FileTree) (path : Path) : Logged Value :=
  (load tree {} path).2

end SchemaCodecs
