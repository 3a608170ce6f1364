/-
# Saving a text

A text is saved in a file, and the directories on the way to it are made.  In the atomic way the
text goes to a temporary file beside the target first, which is then moved onto it, so that at no
time the target holds a part of the text; a refused step leaves no temporary file behind, and neither
does a text that cannot be encoded.
-/
import SchemaCodecs.Config
import SchemaCodecs.FileTree.Disk
import SchemaCodecs.Log

namespace SchemaCodecs

/-! ## Writing -/

/-- The temporary file for a target: beside it, along a path without `..`. -/
def temporaryPath (target : Path) (token : Text) : Path :=
  let directory := { target.parent.plain with doubled := target.doubled }
  directory.child ("." ++ target.name ++ "." ++ token ++ ".tmp")

/-- Makes a temporary file for a target, with the first token for which none is there. -/
def createTemporary (target : Path) : List Text → DiskAction Path
  | [] => throw (.occupied target.parent.text)
  | token :: rest =>
    let path := temporaryPath target token
    Disk.orElse (do Disk.create path; return path) fun
      | .occupied _ => createTemporary target rest
      | fault => throw fault

/-- Writes a file by way of a temporary file, which is taken away again if that fails. -/
def writeAtomic (tokens : List Text) (target : Path) (bytes : List UInt8) : DiskAction Unit := do
  let temporary ← createTemporary target tokens
  Disk.orElse (do Disk.write temporary bytes; Disk.move temporary target) fun fault => do
    Disk.remove temporary
    throw fault

/-- Writes a file in place: it is emptied first, then filled. -/
def writeInPlace (target : Path) (bytes : List UInt8) : DiskAction Unit := do
  Disk.write target []
  Disk.write target bytes

/-- What is done to the files for a text without an encoding: the temporary file is taken away again,
and a file that is written in place has been emptied. -/
def abandon (atomic : Bool) (tokens : List Text) (target : Path) : DiskAction Unit := do
  if atomic then Disk.remove (← createTemporary target tokens) else Disk.write target []

/-- Writes a file and the directories on the way to it; there may be no bytes to write. -/
def writeFile (atomic : Bool) (tokens : List Text) (target : Path) (bytes : Option (List UInt8)) :
    DiskAction Unit := do
  Disk.makeDirectories target.parent
  match bytes with
  | some bytes => if atomic then writeAtomic tokens target bytes else writeInPlace target bytes
  | none => abandon atomic tokens target

/-! ## Saving -/

/-- Whether a mode of writing protects a file that is there. -/
def WriteMode.protects : WriteMode → Bool
  | errorIfExists => true
  | _ => false

/-- Refuses to write where a protected file is.  That nothing is there is no obstacle to writing,
but a path that is too long cannot be tested. -/
def guardTarget (config : OutputConfig) (tree : FileTree) (target : Path) : Except Fault Unit :=
  if config.mode.protects && (NameFault.of? target.text).isNone then
    match tree.lookup target with
    | .ok _ => .error (.write (.exists target.text))
    | .error (.tooLong path) => .error (.refused (.tooLong path))
    | .error _ => .ok ()
  else .ok ()

/-- What is done to the files to save a text, and what it ends with if no step is refused.  A target
that no file can have, or a text without an encoding, is noticed once the directories are made. -/
def saving (config : OutputConfig) (tokens : List Text) (target : Path) (text : Text) :
    DiskAction (Except Fault Unit) :=
  match NameFault.of? target.text with
  | some fault => do
    Disk.makeDirectories target.parent
    return .error fault.fault
  | none => do
    let bytes := text.encodeUtf8?
    writeFile config.atomicWrite.isTruthy tokens target bytes
    return if bytes.isSome then .ok () else .error .unencodable

/-- Saves a text in a file; the result is the disk afterwards and the outcome.  The tokens are those
for temporary files. -/
def save (config : OutputConfig) (tokens : List Text) (target : Path) (text : Text)
    (disk : Disk) : Disk × Except Fault Unit :=
  match guardTarget config disk.tree target with
  | .error fault => (disk, .error fault)
  | .ok _ =>
    match NameFault.of? target.parent.text with
    | some fault => (disk, .error fault.fault)
    | none =>
      match saving config tokens target text disk with
      | .error fault disk => (disk, .error (.write (.failed target.text fault)))
      | .ok outcome disk => (disk, outcome)

/-- The report of a saved text. -/
def saveReport (target : Path) (text : Text) : LogRecord :=
  ⟨.writer, .debug, "Wrote " ++ Text.numeral text.length ++ " characters to " ++ target.text⟩

end SchemaCodecs
