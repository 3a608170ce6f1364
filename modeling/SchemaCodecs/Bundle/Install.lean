/-
# Installing bundled schemas

The gathered schemas are added to the component schemas of the root document.  A component schema
that only refers to itself stands for the bundled schema of its name; any other one of that name has
to be equal to it.  Where the table of component schemas stands at several places of the document,
it changes at all of them.
-/
import SchemaCodecs.Bundle.Gather

namespace SchemaCodecs

/-! ## The table of schemas -/

/-- A schema that only refers to the component schema of the given name. -/
def selfReference (name : Text) : Value :=
  .table [(.text Reference.refKey, .text (Reference.toSchema name))]

/-- The component schemas with one more, given how it reads there and how it stands in its file. -/
def addSchema (schemas : Entries) (name : Text) (body source : Value) : Except Fault Entries :=
  match Entries.get? name schemas with
  | none => .ok (schemas ++ [(.text name, body)])
  | some own =>
    if own.same (selfReference name) then .ok (Entries.put (.text name) body schemas)
    else if own.equals source then .ok schemas
    else .error (own.difference source (.clashing name))

/-- The component schemas with one bundled schema added. -/
def installSchema (root : Path) (schemas : Entries) (schema : Bundled) : Except Fault Entries :=
  addSchema schemas schema.name (schema.body root) schema.source

/-- The component schemas with all bundled schemas added. -/
def installAll (root : Path) (schemas : Entries) (bundled : List Bundled) : Except Fault Entries :=
  bundled.foldlM (installSchema root) schemas

/-! ## Repeated mappings -/

namespace Value

mutual

/-- A value with other entries in every mapping of the given label. -/
def replaceLabelled (label : Nat) (entries : Entries) : Value → Value
  | scalar s => scalar s
  | sequence items => sequence (replaceLabelledItems label entries items)
  | mapping own old =>
    if own = some label then mapping own entries
    else mapping own (replaceLabelledEntries label entries old)
  | set members => set members
  | pair first second =>
    pair (replaceLabelled label entries first) (replaceLabelled label entries second)

/-- The items of a sequence, with other entries in every mapping of the given label. -/
def replaceLabelledItems (label : Nat) (entries : Entries) : List Value → List Value
  | [] => []
  | item :: rest => replaceLabelled label entries item :: replaceLabelledItems label entries rest

/-- The entries of a mapping, with other entries in every mapping of the given label. -/
def replaceLabelledEntries (label : Nat) (entries : Entries) :
    List (Scalar × Value) → List (Scalar × Value)
  | [] => []
  | (key, v) :: rest =>
    (key, replaceLabelled label entries v) :: replaceLabelledEntries label entries rest

end

/-- The entries of a mapping with the value under a key replaced by a mapping, and with other
entries in every repetition of that mapping. -/
def putMapping (key : Text) (label : Option Nat) (inner outer : Entries) : Entries :=
  let outer := match label with
    | some label => replaceLabelledEntries label inner outer
    | none => outer
  Entries.put (.text key) (mapping label inner) outer

end Value

/-! ## The document -/

/-- The label and the entries of a part of a document that has to be a mapping; a part that does not
count as true is an empty mapping. -/
def mappingPart (key : Text) (entries : Entries) : Except Fault (Option Nat × Entries) :=
  match (Entries.get? key entries).bind Value.truthy? with
  | none => .ok (none, [])
  | some (.mapping label inner) => .ok (label, inner)
  | some _ => .error (.illTyped .lacksPart)

/-- The key of the components of a document. -/
def componentsKey : Text := "components"

/-- The key of the schemas among the components. -/
def schemasKey : Text := "schemas"

/-- A document with its component schemas changed. -/
def changeSchemas (change : Entries → Except Fault Entries) : Value → Except Fault Value
  | .mapping label entries => do
    let (componentsLabel, components) ← mappingPart componentsKey entries
    let (schemasLabel, schemas) ← mappingPart schemasKey components
    let schemas' ← change schemas
    let components' := Value.putMapping schemasKey schemasLabel schemas' components
    let entries' := match schemasLabel with
      | some label => Value.replaceLabelledEntries label schemas' entries
      | none => entries
    return .mapping label (Value.putMapping componentsKey componentsLabel components' entries')
  | _ => .error (.illTyped .lacksPart)

/-- A document with all bundled schemas added; without any the document stays as it is. -/
def install (root : Path) (document : Value) (bundled : List Bundled) : Except Fault Value :=
  if bundled.isEmpty then .ok document
  else changeSchemas (fun schemas => installAll root schemas bundled) document

end SchemaCodecs
