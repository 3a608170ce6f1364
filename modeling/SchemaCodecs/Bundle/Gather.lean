/-
# Gathering targets

Starting from the references of the root document, every target outside the root document is taken
in once: its file is read, the part is found, and the references in it are followed before the next
reference.  Parts of the same name must be equal; the last of them counts.  A part that contains
itself is gone through without an end.

The gathering ends because a file is read once, and because the references of a document lead to
boundedly many targets.  That bound is kept as an allowance, which grows with every document read
and of which every target takes one.
-/
import SchemaCodecs.Bundle.Relocate
import SchemaCodecs.Bundle.Shelf
import SchemaCodecs.Log
import SchemaCodecs.Reference.Pointer

namespace SchemaCodecs

/-! ## What is gathered -/

/-- A part of a file that becomes a component schema. -/
structure Bundled where
  /-- The name of the schema. -/
  name : Text
  /-- Where the part stands. -/
  target : Target
  /-- The part as it stands there. -/
  source : Value
  deriving Inhabited

/-- A bundled schema as it reads in the bundled document. -/
def Bundled.body (root : Path) (schema : Bundled) : Value :=
  (Value.relocated root schema.target.file schema.source).unlabelled

/-- The targets taken in so far. -/
structure Gathering where
  /-- The targets, the last one first. -/
  targets : List Target := []
  /-- The schemas that they become, each name once, in the order of their first targets. -/
  schemas : List Bundled := []
  deriving Inhabited

/-- The fault of values that are not found to be equal; if both contain themselves, it may not come out
that they differ. -/
def Value.difference (v w : Value) (fault : DocumentFault) : Fault :=
  if v.entangled w then .endless else .document fault

namespace Gathering

/-- The schema of a name. -/
def find? (gathering : Gathering) (name : Text) : Option Bundled :=
  gathering.schemas.find? fun schema => schema.name == name

/-- Schemas with one more, which takes the place of the one of its name if there is one. -/
def putSchema (schema : Bundled) : List Bundled → List Bundled
  | [] => [schema]
  | other :: rest =>
    if other.name == schema.name then schema :: rest else other :: putSchema schema rest

/-- Whether a part differs from the schema of its name. -/
def conflicts (gathering : Gathering) (name : Text) (source : Value) : Bool :=
  match gathering.find? name with
  | some schema => !schema.source.equals source
  | none => false

/-- The fault of a part that differs from the schema of its name. -/
def conflict (gathering : Gathering) (name : Text) (source : Value) : Fault :=
  match gathering.find? name with
  | some schema => schema.source.difference source (.conflicting name)
  | none => .document (.conflicting name)

/-- The gathering with a target taken in, given the document it is in and the reference that led to
it. -/
def takeIn (gathering : Gathering) (target : Target) (ref : Text) (document : Value) :
    Except Fault (Value × Gathering) := do
  let source ← Reference.resolveInside document target.pointer ref
  if gathering.conflicts target.name source then throw (gathering.conflict target.name source)
  return (source,
    { targets := target :: gathering.targets
      schemas := putSchema ⟨target.name, target, source⟩ gathering.schemas })

end Gathering

/-! ## Following references -/

/-- What remains to be done. -/
inductive Task where
  /-- To follow a reference that stands in the file `base`. -/
  | follow (base : Path) (ref : Text)
  /-- To report that all references of a schema have been followed. -/
  | close (ref name : Text)
  /-- To go round without an end. -/
  | goRound
  deriving DecidableEq, Inhabited

/-- The tasks for the references in a part of a file. -/
def tasksFor (root base : Path) (v : Value) : List Task :=
  (v.refsMet root base).map (Task.follow base) ++ if v.isEndless then [.goRound] else []

/-- How many targets the references of a document can lead to at most, one after another: the name
of a target is not longer than the reference and the path of the file together, and where a mapping
is met again, it names a target with a shorter name. -/
def allowanceFor (file : Path) (document : Value) : Nat :=
  document.allRefs.foldr (fun ref total => ref.length + file.text.length + 4 + total) 0

/-- The report on a schema. -/
def bundledReport (ref name : Text) : LogRecord :=
  ⟨.loader, .debug, "Bundled " ++ ref ++ " as " ++ Text.quoted name⟩

/-- The outcome of following references: what was gathered up to the end or a fault, with the
documents read and the log. -/
structure Gathered where
  /-- The documents read. -/
  shelf : Shelf
  /-- The log. -/
  log : List LogRecord := []
  /-- What was gathered. -/
  outcome : Except Fault Gathering

/-- An outcome with a line before its log. -/
def Gathered.noting (record : LogRecord) (gathered : Gathered) : Gathered :=
  { gathered with log := record :: gathered.log }

/-- Carries out tasks in order; the tasks that a target brings with it come first.  An allowance
that is used up would end the gathering. -/
def gather (tree : FileTree) (root : Path) (shelf : Shelf) (allowance : Nat)
    (gathering : Gathering) : List Task → Gathered
  | [] => { shelf, outcome := .ok gathering }
  | .close ref name :: rest =>
    (gather tree root shelf allowance gathering rest).noting (bundledReport ref name)
  | .goRound :: _ => { shelf, outcome := .error .endless }
  | .follow base ref :: rest =>
    match meant : meaning root base ref with
    | .error fault => { shelf, outcome := .error fault }
    | .ok .itself | .ok (.inRoot _) => gather tree root shelf allowance gathering rest
    | .ok (.external target) =>
      let followUp (source : Value) :=
        tasksFor root target.file source ++ .close ref target.name :: rest
      if gathering.targets.contains target then gather tree root shelf allowance gathering rest
      else
        match found : shelf.find? target.file with
        | some document =>
          match gathering.takeIn target ref document with
          | .error fault => { shelf, outcome := .error fault }
          | .ok (source, gathering') =>
            match allowance with
            | 0 => { shelf, outcome := .ok gathering' }
            | allowance + 1 => gather tree root shelf allowance gathering' (followUp source)
        | none =>
          match read : readDocument tree target.file with
          | .error fault => { shelf, outcome := .error fault }
          | .ok document =>
            match gathering.takeIn target ref document with
            | .error fault => { shelf := shelf.add target.file document, outcome := .error fault }
            | .ok (source, gathering') =>
              have := Shelf.unread_add_lt found read (isPlain_of_meaning meant)
              gather tree root (shelf.add target.file document)
                (allowance + allowanceFor target.file document) gathering' (followUp source)
termination_by tasks => (shelf.unread tree, allowance, tasks.length)

end SchemaCodecs
