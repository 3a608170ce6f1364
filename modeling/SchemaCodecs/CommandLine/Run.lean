/-
# Runs

One run of the program on a disk: it reads a configuration and a document, makes the module of
codecs, saves it and announces the file.  The result is the disk afterwards, the log and the way in
which the run ended.  Not every standard output can show the path of every file; which texts it shows is
given.
-/
import SchemaCodecs.Bundle.Load
import SchemaCodecs.CommandLine.Arguments
import SchemaCodecs.Json.Reader
import SchemaCodecs.Save

namespace SchemaCodecs.CommandLine

/-! ## Endings -/

/-- How a run ends. -/
inductive Ending where
  /-- The module is saved in a file, which is announced. -/
  | saved (target : Path)
  /-- The module is saved in a file whose path the standard output cannot show. -/
  | unannounced (target : Path)
  /-- The arguments are explained. -/
  | explained
  /-- The arguments cannot be understood. -/
  | misused
  /-- The configuration is not accepted, for a reason that can be given unless it is its form. -/
  | misconfigured (reason : Option Text)
  /-- A fault is reported to the user. -/
  | reported (fault : Fault)
  /-- A fault that is not meant for the user ends the run. -/
  | broken (fault : Fault)
  deriving Inhabited

/-- The number with which a run ends. -/
def Ending.exitCode : Ending → Nat
  | saved _ | explained => 0
  | misused => 2
  | _ => 1

/-- The file in which a run has saved its module, whether or not that is announced. -/
def Ending.savedAt? : Ending → Option Path
  | saved target | unannounced target => some target
  | _ => none

/-- Whether a fault is meant for the user: one of the document, of its schemas or of the output. -/
def isReported : Fault → Bool
  | .document _ | .strict _ | .write _ => true
  | .refused _ | .invalid _ | .illTyped _ | .unencodable | .endless | .unsettled => false

/-- How a run ends at a fault. -/
def Ending.ofFault (fault : Fault) : Ending :=
  if isReported fault then .reported fault else .broken fault

/-- The message to the user at the end of a run. -/
def Ending.message? : Ending → Option Text
  | misconfigured none => some "invalid config"
  | misconfigured (some reason) => some ("invalid config: " ++ reason)
  | reported fault => fault.message?
  | _ => none

/-- A run that has ended. -/
structure Run where
  /-- How it ended. -/
  ending : Ending
  /-- The log. -/
  log : List LogRecord := []
  /-- The disk afterwards. -/
  disk : Disk
  deriving Inhabited

/-- The explanation of the arguments. -/
def usage : Text :=
  "Usage: openapi_to_io_ts generate -i FILE -o DIRECTORY [-c FILE] [--strict] [-v]\n"

/-- What a run writes to the standard output. -/
def Run.output (run : Run) : Text :=
  match run.ending with
  | .saved target => target.text ++ "\n"
  | .explained => usage
  | _ => ""

/-- The last words of a run on the standard error. -/
def Ending.lastWords (ending : Ending) : Text :=
  match ending, ending.message? with
  | misused, _ => usage
  | _, some message => "Error: " ++ message ++ "\n"
  | _, none => ""

/-- What a run writes to the standard error: the log and its last words. -/
def Run.errors (run : Run) : Text :=
  Text.join (run.log.map LogRecord.line) ++ run.ending.lastWords

/-! ## The configuration -/

/-- The configuration in a file, or the way in which a run ends without it. -/
def readConfig (tree : FileTree) (file : Path) : Except Ending Config :=
  match tree.read file with
  | .error cause => .error (.broken (.refused cause))
  | .ok bytes =>
    match Text.decodeUtf8 bytes with
    | .error fault => .error (.misconfigured (some fault.message))
    | .ok text =>
      match Json.read text with
      | .error .malformed => .error (.misconfigured none)
      | .error (.longNumeral digits) =>
        .error (.misconfigured (some (InvalidFault.longNumeral digits).message))
      | .ok v =>
        match Config.ofValue v with
        | .ok config => .ok config
        | .error (.invalid cause) => .error (.misconfigured (some cause.message))
        | .error fault => .error (.broken fault)

/-- The configuration of a run; the option for strictness wins over the file. -/
def configOf (tree : FileTree) (file : Option Path) (strict : Bool) : Except Ending Config := do
  let config ← match file with
    | some file => readConfig tree file
    | none => pure {}
  return if strict then { config with strict := .bool true } else config

/-! ## The module -/

/-- The module of codecs for the document in a file. -/
def moduleFor (tree : FileTree) (config : Config) (input : Path) : Logged Text := do
  generate config (← loadDocument tree input)

/-- The file for the module, and how it is written. -/
def destination (config : Config) (directory : Path) : Except Fault (Path × OutputConfig) :=
  match config.outputFilename with
  | .scalar (.text name) =>
    let target := directory.join name
    match config.output with
    | none => .error (.illTyped .lacksPart)
    | some (.settings output) => .ok (target, output)
    | some (.other v) => if v.isTruthy then .error (.illTyped .lacksPart) else .ok (target, {})
  | _ => .error (.illTyped .notText)

/-- The lines of a log that are written. -/
def visibleLog (verbose : Bool) (log : List LogRecord) : List LogRecord :=
  log.filter fun record => verbose || record.level == .warning

/-- Makes the module, saves it and announces the file. -/
def produce (config : Config) (input directory : Path) (shows : Text → Bool) (tokens : List Text)
    (disk : Disk) : Run :=
  let made : Logged (Text × Path × OutputConfig) := do
    let text ← moduleFor disk.tree config input
    let (target, output) ← destination config directory
    return (text, target, output)
  match made.outcome with
  | .error fault => { ending := .ofFault fault, log := made.trace, disk }
  | .ok (text, target, output) =>
    match save output tokens target text disk with
    | (disk, .error fault) => { ending := .ofFault fault, log := made.trace, disk }
    | (disk, .ok _) =>
      { ending := if shows target.text then .saved target else .unannounced target,
        log := made.trace ++ [saveReport target text], disk }

/-! ## Runs -/

/-- The paths of some options, taken one after the other; a file with a configuration has to be
there. -/
def resolveSettings (here : Path) (tree : FileTree) :
    List (Setting × Text) → Except Ending (List (Setting × Path))
  | [] => .ok []
  | (setting, text) :: rest =>
    match resolveFile (here.join text) with
    | .error fault => .error (.broken fault)
    | .ok path =>
      if setting == .config && !tree.contains path then .error .misused
      else do return (setting, path) :: (← resolveSettings here tree rest)

/-- The places that a run works with. -/
structure Places where
  /-- The file with the document. -/
  input : Path
  /-- The directory for the module. -/
  output : Path
  /-- The file with the configuration. -/
  config : Option Path
  deriving Inhabited

/-- The places that arguments name; input and output are needed, and nothing but options. -/
def placesOf (here : Path) (tree : FileTree) (arguments : Arguments) : Except Ending Places := do
  let paths ← resolveSettings here tree arguments.settings
  match paths.lookup .input, paths.lookup .output with
  | some input, some output =>
    if arguments.others.isEmpty then return { input, output, config := paths.lookup .config }
    else throw .misused
  | _, _ => throw .misused

/-- Carries out the command in a working directory. -/
def runGenerate (here : Path) (shows : Text → Bool) (arguments : Arguments) (tokens : List Text)
    (disk : Disk) : Run :=
  match placesOf here disk.tree arguments with
  | .error ending => { ending, disk }
  | .ok places =>
    match configOf disk.tree places.config (arguments.flags.contains .strict) with
    | .error ending => { ending, disk }
    | .ok config =>
      let run := produce config places.input places.output shows tokens disk
      { run with log := visibleLog (arguments.flags.contains .verbose) run.log }

/-- Whether a text can be shown where every text has to be encoded. -/
def isEncodable (text : Text) : Bool := text.encodeUtf8?.isSome

/-- Runs the program in a working directory, with a standard output that shows some texts.  The tokens
are those for temporary files. -/
def run (here : Path) (shows : Text → Bool) (arguments tokens : List Text) (disk : Disk) : Run :=
  match request? arguments with
  | none => { ending := .misused, disk }
  | some .help => { ending := .explained, disk }
  | some (.generate arguments) => runGenerate here shows arguments tokens disk

end SchemaCodecs.CommandLine
