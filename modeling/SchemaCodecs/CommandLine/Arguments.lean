/-
# Arguments

The arguments of the program: the command `generate` and its options.  An option has a long name
after two hyphens and most have a short one, a letter after one hyphen.  A value follows an option
as the next argument, after an equals sign behind a long name, or right behind a short name; short
names of options without a value may be joined.  Of several values for one option the last counts.
-/
import SchemaCodecs.Distinct
import SchemaCodecs.Text.Segment

namespace SchemaCodecs.CommandLine

open Text

/-! ## Options -/

/-- The options that have a value. -/
inductive Setting where
  /-- The file with the document. -/
  | input
  /-- The directory for the module. -/
  | output
  /-- The file with the configuration. -/
  | config
  deriving DecidableEq, Inhabited

/-- The options that have no value. -/
inductive Flag where
  /-- End the run at the first problem of the schemas. -/
  | strict
  /-- Write a detailed log. -/
  | verbose
  /-- Only explain the arguments. -/
  | help
  deriving DecidableEq, Inhabited

/-- An option. -/
inductive Named where
  /-- One with a value. -/
  | setting (s : Setting)
  /-- One without a value. -/
  | flag (f : Flag)
  deriving DecidableEq, Inhabited

/-- The options by their long names. -/
def longOptions : List (Text × Named) :=
  [("--input", .setting .input), ("--output", .setting .output), ("--config", .setting .config),
   ("--strict", .flag .strict), ("--verbose", .flag .verbose), ("--help", .flag .help)]

/-- The option with the given long name. -/
def longOption? (name : Text) : Option Named :=
  longOptions.lookup name

/-- The option with the given short name. -/
def shortOption? : Point → Option Named
  | 'i' => some (.setting .input)
  | 'o' => some (.setting .output)
  | 'c' => some (.setting .config)
  | 'v' => some (.flag .verbose)
  | _ => none

/-! ## Reading one argument -/

/-- What an argument says: some options without a value, and then perhaps one with a value, which
may be still to come. -/
structure Said where
  /-- The options without a value. -/
  flags : List Flag := []
  /-- The option with a value, and the value if it belongs to the same argument. -/
  setting : Option (Setting × Option Text) := none
  deriving DecidableEq, Inhabited

/-- What joined short names say; after one that has a value the rest is the value. -/
def readShort : List Point → Option Said
  | [] => some {}
  | c :: rest =>
    match shortOption? c with
    | none => none
    | some (.flag f) => (readShort rest).map fun said => { said with flags := f :: said.flags }
    | some (.setting s) =>
      some { setting := some (s, if rest.isEmpty then none else some (Text.ofList rest)) }

/-- What a long name says, with the text behind an equals sign if there is one. -/
def readLong (name : Text) (value : Option Text) : Option Said :=
  match longOption? name, value with
  | some (.setting s), value => some { setting := some (s, value) }
  | some (.flag f), none => some { flags := [f] }
  | _, _ => none

/-- What an argument with a hyphen in front says. -/
def readOption (argument : Text) : Option Said :=
  match argument.toList with
  | '-' :: '-' :: _ =>
    let (name, value) := cutFirst '=' argument.toList
    readLong (Text.ofList name) (value.map Text.ofList)
  | _ :: short => readShort short
  | [] => none

/-- Whether an argument is read as an option. -/
def isOption (argument : Text) : Bool :=
  match argument.toList with
  | '-' :: _ :: _ => true
  | _ => false

/-! ## Reading all arguments -/

/-- What the arguments read so far say. -/
structure Arguments where
  /-- The values, the last one first. -/
  values : List (Setting × Text) := []
  /-- The options without a value. -/
  flags : List Flag := []
  /-- The arguments that are no options. -/
  others : List Text := []
  deriving DecidableEq, Inhabited

/-- Takes in what one argument says, but for a value that is still to come. -/
def Arguments.take (arguments : Arguments) (said : Said) : Arguments :=
  let arguments := { arguments with flags := arguments.flags ++ said.flags }
  match said.setting with
  | some (s, some value) => { arguments with values := (s, value) :: arguments.values }
  | _ => arguments

/-- Reads arguments in any order; behind two hyphens there are no options any more. -/
def readArguments (arguments : Arguments) : List Text → Option Arguments
  | [] => some arguments
  | argument :: rest =>
    if argument = "--" then some { arguments with others := arguments.others ++ rest }
    else if isOption argument then
      match readOption argument with
      | none => none
      | some said =>
        match said.setting, rest with
        | some (_, none), [] => none
        | some (s, none), value :: rest =>
          let arguments := arguments.take said
          readArguments { arguments with values := (s, value) :: arguments.values } rest
        | _, rest => readArguments (arguments.take said) rest
    else readArguments { arguments with others := arguments.others ++ [argument] } rest

/-- The options with a value in the order in which they were first given, each with its last
value. -/
def Arguments.settings (arguments : Arguments) : List (Setting × Text) :=
  let given := distinctBy (· == ·) (arguments.values.reverse.map (·.1))
  given.filterMap fun s => (arguments.values.lookup s).map (s, ·)

/-! ## Requests -/

/-- What the program is asked to do. -/
inductive Request where
  /-- To explain its arguments. -/
  | help
  /-- To write a module. -/
  | generate (arguments : Arguments)
  deriving DecidableEq, Inhabited

/-- The request that the arguments of the command amount to. -/
def Arguments.request (arguments : Arguments) : Request :=
  if arguments.flags.contains .help then .help else .generate arguments

/-- The name of the command. -/
def commandName : Text := "generate"

/-- The request that the arguments of the program amount to; none if they cannot be understood. -/
def request? : List Text → Option Request
  | [] => none
  | first :: rest =>
    if first = "--help" then some .help
    else
      let words := if first = "--" then rest else first :: rest
      match words with
      | name :: rest => if name = commandName then (readArguments {} rest).map (·.request) else none
      | [] => none

end SchemaCodecs.CommandLine
