/-
# Configuration

The options of a compilation and how they are read from a mapping.  A key that names no option is
ignored.  Two options are checked while they are read, the mode of writing and the policy for
dangling references; every other option keeps the value it was given.

Reading works on a table from the names of the options to their values.  Some names outside the
eight options belong to the table itself: one replaces it as a whole, others stand for the final
check, for the description of the configuration or for what must not be set.
-/
import SchemaCodecs.Fault

namespace SchemaCodecs

/-! ## Options -/

/-- What to do when the output file is already there. -/
inductive WriteMode where
  /-- Replace it. -/
  | force
  /-- Refuse to write. -/
  | errorIfExists
  /-- A value that names no mode; it does not protect the file. -/
  | unnamed (value : Value)
  deriving Inhabited

/-- How the output is written. -/
structure OutputConfig where
  /-- What to do when the file is already there. -/
  mode : WriteMode := .force
  /-- Whether to go through a temporary file. -/
  atomicWrite : Value := .bool true
  deriving Inhabited

/-- The output option: settings, or some other value in their place. -/
inductive OutputOption where
  /-- Settings. -/
  | settings (config : OutputConfig)
  /-- A value that is not a table of settings. -/
  | other (value : Value)
  deriving Inhabited

/-- How identifiers that name no declaration are printed. -/
inductive DanglingPolicy where
  /-- As they are. -/
  | identifier
  /-- As the codec that accepts everything. -/
  | unknown
  deriving DecidableEq, Inhabited

/-- The options of a compilation. -/
structure Config where
  /-- The component schemas to leave out; without it no schema can be tested. -/
  ignoreSchemas : Option Value := some (.sequence [])
  /-- Whether declarations are exported. -/
  exportDeclarations : Value := .bool true
  /-- The codec of integers. -/
  integerCodec : Value := .text "t.Int"
  /-- How dangling identifiers are printed. -/
  danglingPolicy : DanglingPolicy := .identifier
  /-- Whether the module begins with a remark on its making. -/
  addGenerationComment : Value := .bool false
  /-- Whether a recorded problem ends the compilation. -/
  strict : Value := .bool false
  /-- The name of the file inside the output directory. -/
  outputFilename : Value := .text "file.ts"
  /-- How the output is written. -/
  output : Option OutputOption := some (.settings {})
  /-- Whether the configuration can be described as a mapping. -/
  describable : Bool := true
  deriving Inhabited

/-! ## Names -/

/-- The name of the option with the schemas to leave out. -/
def ignoreSchemasKey : Text := "ignore_schemas"

/-- The name of the option for the output. -/
def outputKey : Text := "output"

/-- The name of the option for dangling references. -/
def danglingPolicyKey : Text := "dangling_reference_policy"

/-- The options that have a value even when the table of options is replaced. -/
def standingOptions : Entries :=
  [(.text "export_declarations", .bool true), (.text "integer_codec", .text "t.Int"),
   (.text danglingPolicyKey, .text "identifier"), (.text "add_generation_comment", .bool false),
   (.text "strict", .bool false), (.text "output_filename", .text "file.ts")]

/-- The name under which the final check is kept. -/
def finalCheckKey : Text := "__post_init__"

/-- The name under which the description of the configuration is kept. -/
def descriptionKey : Text := "to_dict"

/-- The name of the table of options as a whole. -/
def tableKey : Text := "__dict__"

/-- The name of the kind of thing a configuration is. -/
def kindKey : Text := "__class__"

/-- The name of the part that can be seen but not set. -/
def fixedKey : Text := "__weakref__"

/-! ## Reading -/

/-- A configuration while it is read: the values set so far, the output apart. -/
structure ConfigDraft where
  /-- The values set so far. -/
  options : Entries := [(.text ignoreSchemasKey, .sequence [])]
  /-- The output option. -/
  output : Option OutputOption := some (.settings {})
  deriving Inhabited

namespace ConfigDraft

/-- The value of an option: the one set, else the standing one. -/
def option? (draft : ConfigDraft) (key : Text) : Option Value :=
  Entries.get? key draft.options <|> Entries.get? key standingOptions

/-- Whether a key names something that can be set. -/
def knows (draft : ConfigDraft) (key : Text) : Bool :=
  (draft.option? key).isSome || key == finalCheckKey || key == descriptionKey ||
    (key == outputKey && draft.output.isSome)

/-- The mode of writing that a value names. -/
def writeMode : Value → Except Fault WriteMode
  | .scalar (.text name) =>
    if name = "force" then .ok .force
    else if name = "error" then .ok .errorIfExists
    else .error (.invalid (.writeMode name))
  | value => .ok (.unnamed value)

/-- The settings in a table for the output. -/
def outputConfig (entries : Entries) : Except Fault OutputConfig := do
  let mode ← match Entries.get? "mode" entries with
    | some value => writeMode value
    | none => pure .force
  return { mode, atomicWrite := (Entries.get? "atomic_write" entries).getD (.bool true) }

/-- A new table of options in place of the old one. -/
def ofTable (entries : Entries) : ConfigDraft :=
  { options := entries.filter fun entry => !entry.1.same (.text outputKey)
    output := (Entries.get? outputKey entries).map .other }

/-- The draft with one entry of the mapping taken in. -/
def set (draft : ConfigDraft) (key : Text) (value : Value) : Except Fault ConfigDraft :=
  if key == outputKey then
    match value with
    | .mapping _ entries => do
      return { draft with output := some (.settings (← outputConfig entries)) }
    | _ =>
      if draft.output.isSome then .ok { draft with output := some (.other value) } else .ok draft
  else if key == kindKey then .error (.illTyped .notAKind)
  else if key == fixedKey then .error (.illTyped .lacksPart)
  else if key == tableKey then
    match value with
    | .mapping _ entries => .ok (ofTable entries)
    | _ => .error (.illTyped .notAKind)
  else if draft.knows key then
    .ok { draft with options := Entries.put (.text key) value draft.options }
  else .ok draft

/-- The draft with all entries of the mapping taken in, in order; only texts name options. -/
def setAll (draft : ConfigDraft) : Entries → Except Fault ConfigDraft
  | [] => .ok draft
  | (.text key, value) :: rest => do setAll (← draft.set key value) rest
  | _ :: _ => .error (.illTyped .notText)

/-- The policy for dangling references that a value names. -/
def danglingPolicy (value : Value) : Except Fault DanglingPolicy :=
  match value with
  | .scalar (.text name) =>
    if name = "identifier" then .ok .identifier
    else if name = "unknown" then .ok .unknown
    else .error (.invalid (.danglingPolicy value))
  | _ => .error (.invalid (.danglingPolicy value))

/-- The configuration that a draft amounts to, after the final check. -/
def finish (draft : ConfigDraft) : Except Fault Config := do
  if Entries.hasKey finalCheckKey draft.options then .error (.illTyped .notCallable)
  let option (key : Text) : Value := (draft.option? key).getD .null
  let policy ← danglingPolicy (option danglingPolicyKey)
  return {
    ignoreSchemas := Entries.get? ignoreSchemasKey draft.options
    exportDeclarations := option "export_declarations"
    integerCodec := option "integer_codec"
    danglingPolicy := policy
    addGenerationComment := option "add_generation_comment"
    strict := option "strict"
    outputFilename := option "output_filename"
    output := draft.output
    describable := !Entries.hasKey descriptionKey draft.options }

end ConfigDraft

namespace Config

/-- The configuration that a value describes. -/
def ofValue : Value → Except Fault Config
  | .mapping _ entries => do (← ConfigDraft.setAll {} entries).finish
  | _ => .error (.illTyped .lacksPart)

/-- The configuration that a value describes; the default one if there is none. -/
def ofValue? : Value → Except Fault Config
  | .scalar .null => .ok {}
  | value => ofValue value

/-! ## Describing -/

/-- The name of a mode of writing, if it has one. -/
def modeName : WriteMode → Except Fault Value
  | .force => .ok (.text "force")
  | .errorIfExists => .ok (.text "error")
  | .unnamed _ => .error (.illTyped .lacksPart)

/-- The name of a policy for dangling references. -/
def policyName : DanglingPolicy → Value
  | .identifier => .text "identifier"
  | .unknown => .text "unknown"

/-- The description of the output option. -/
def describeOutput : Option OutputOption → Except Fault Value
  | some (.settings config) => do
    return .table [(.text "mode", ← modeName config.mode),
      (.text "atomic_write", config.atomicWrite)]
  | _ => .error (.illTyped .lacksPart)

/-- A configuration as a mapping of all its options. -/
def describe (config : Config) : Except Fault Value := do
  if !config.describable then .error (.illTyped .notCallable)
  match config.ignoreSchemas with
  | none => .error (.illTyped .lacksPart)
  | some ignored =>
    return .table [
      (.text ignoreSchemasKey, ignored),
      (.text "export_declarations", config.exportDeclarations),
      (.text "integer_codec", config.integerCodec),
      (.text danglingPolicyKey, policyName config.danglingPolicy),
      (.text "add_generation_comment", config.addGenerationComment),
      (.text "strict", config.strict),
      (.text "output_filename", config.outputFilename),
      (.text outputKey, ← describeOutput config.output)]

/-! ## Testing names -/

/-- Whether a schema of the given name is to be left out.  A list is searched for the name, a text
for the name as a part of it, a mapping for the name as a key, a set for the name as a member. -/
def ignores (config : Config) (name : Scalar) : Except Fault Bool :=
  match config.ignoreSchemas with
  | none => .error (.illTyped .lacksPart)
  | some (.sequence items) => .ok (items.any fun item => item.equals (.scalar name))
  | some (.mapping _ entries) => .ok (Entries.lookup name entries).isSome
  | some (.set members) => .ok (members.any (·.same name))
  | some (.pair first second) => .ok ([first, second].any fun item => item.equals (.scalar name))
  | some (.scalar (.text s)) =>
    match name with
    | .text n => .ok (Text.occursIn n.toList s.toList)
    | _ => .error (.illTyped .notText)
  | some (.scalar _) => .error (.illTyped .notSearchable)

end Config

end SchemaCodecs
