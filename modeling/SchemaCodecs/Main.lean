/-
# The program

The command on the files of the machine.  A run is a computation on a file tree.  The tree is filled
with what stands on the way to the paths that the run asks for, until a run asks for nothing new;
what that run has changed is then written back.  Only texts of characters can name a place of the
machine.
-/
import SchemaCodecs.CommandLine.Run

namespace SchemaCodecs.Machine

open CommandLine

/-! ## Texts of the machine -/

/-- The character that a code point is, if it is one. -/
def charOf? : Point → Option Char
  | .char c => some c
  | .lone _ => none

/-- The string of a text of characters. -/
def stringOf? (text : Text) : Option String :=
  (text.toList.mapM charOf?).map String.ofList

/-- A text with an escape for every lone surrogate. -/
def legible (text : Text) : String :=
  String.ofList <| text.toList.flatMap fun
    | .char c => [c]
    | point => (Text.codePointEscape point).filterMap charOf?

/-- The name of a place on the machine. -/
def nameOf (place : Path) : IO String :=
  match stringOf? place.text with
  | some name => return name
  | none => throw (IO.userError (legible place.text))

/-! ## Reading the machine -/

/-- What stands at a place of the machine. -/
def entryAt? (place : Path) : IO (Option Entry) := do
  let some name := stringOf? place.text | return none
  match ← (IO.FS.readBinFile name).toBaseIO with
  | .ok bytes => return some (.file bytes.data.toList)
  | .error (.inappropriateType ..) => return some .directory
  | .error (.noFileOrDirectory ..) | .error (.invalidArgument ..) => return none
  | .error e => throw e

/-- Adds to a tree what stands on the machine along some names from a place on. -/
def fillAlong (tree : FileTree) (place : Path) : List Text → IO FileTree
  | [] => return tree
  | name :: rest => do
    let next := place.step name
    match tree.find? next with
    | some _ => fillAlong tree next rest
    | none =>
      match ← entryAt? next with
      | none => return tree
      | some (.file bytes) => return tree.put next (.file bytes)
      | some .directory => fillAlong (tree.put next .directory) next rest

/-- Adds to a tree what stands on the machine on the way to a path. -/
def fill (tree : FileTree) (path : Path) : IO FileTree :=
  fillAlong tree Path.root path.names

/-! ## Running -/

/-- The paths that the options of the command name. -/
def namedPaths (here : Path) (arguments : List Text) : List Path :=
  match request? arguments with
  | some (.generate arguments) =>
    arguments.settings.map fun setting => (here.join setting.2).plain
  | _ => []

/-- The paths that a run has asked for without finding anything there. -/
def askedPaths (tree : FileTree) (run : Run) : List Path :=
  let unread := match run.ending with
    | .reported (.document (.unreadable path _)) => [Path.root.join path]
    | _ => []
  let new := run.disk.tree.entries.filter fun entry => (tree.find? entry.1).isNone
  unread ++ new.map (·.1)

/-- A run on a tree that is filled until the run asks for nothing new, and the tree. -/
partial def runFilled (here : Path) (arguments tokens : List Text) (tree : FileTree) :
    IO (Run × FileTree) := do
  let run := CommandLine.run here isEncodable arguments tokens { tree }
  let filled ← (askedPaths tree run).foldlM fill tree
  if filled.entries.length = tree.entries.length then return (run, tree)
  else runFilled here arguments tokens filled

/-! ## Writing back -/

/-- Writes back what a run has changed: directories first, then every file by way of a temporary
file. -/
def writeBack (tokens : List Text) (before after : FileTree) : IO Unit := do
  let changed := after.entries.filter fun entry => before.find? entry.1 ≠ some entry.2
  for (place, entry) in changed do
    if entry = .directory then IO.FS.createDirAll (← nameOf place)
  for (place, entry) in changed do
    if let .file bytes := entry then
      let temporary ← nameOf (temporaryPath place (tokens.headD ""))
      IO.FS.writeBinFile temporary ⟨bytes.toArray⟩
      IO.FS.rename temporary (← nameOf place)

/-- The characters of tokens. -/
def tokenCharacters : List Point := ("abcdefghijklmnopqrstuvwxyz0123456789_" : Text).toList

/-- A random token for a temporary file. -/
def randomToken : IO Text := do
  let indices ← (List.range 8).mapM fun _ => IO.rand 0 (tokenCharacters.length - 1)
  return Text.ofList (indices.filterMap fun index => tokenCharacters[index]?)

/-- Runs the program and gives the number with which it ends. -/
def runOnMachine (arguments : List Text) : IO UInt32 := do
  let here := Path.root.join (Text.ofString (← IO.currentDir).toString)
  let tokens ← (List.range 3).mapM fun _ => randomToken
  let named ← (here :: namedPaths here arguments).foldlM fill FileTree.empty
  let (run, tree) ← runFilled here arguments tokens named
  writeBack tokens tree run.disk.tree
  (← IO.getStdout).putStr (legible run.output)
  (← IO.getStderr).putStr (legible run.errors)
  return UInt32.ofNat run.ending.exitCode

end SchemaCodecs.Machine

/-- Runs the program on its arguments. -/
def main (arguments : List String) : IO UInt32 :=
  SchemaCodecs.Machine.runOnMachine (arguments.map SchemaCodecs.Text.ofString)
