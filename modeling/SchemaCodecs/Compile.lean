/-
# Compiling documents

From the component schemas of a document to ordered declarations and the problems found on the way:
schemas without a supported shape, cycles of references, and identifiers that name no declaration.
In strict mode the first unsupported schema or dangling identifier ends the compilation.
-/
import SchemaCodecs.Codec.Module
import SchemaCodecs.Declaration.Build
import SchemaCodecs.Log
import SchemaCodecs.Order.Sort
import SchemaCodecs.Schema.Classify

namespace SchemaCodecs

/-! ## Documents -/

/-- A document has to be a mapping with the marker `openapi`. -/
def checkDocument : Value → Except Fault Value
  | .mapping label entries =>
    if Entries.hasKey "openapi" entries then .ok (.mapping label entries)
    else .error (.document .notOpenApi)
  | _ => .error (.document .notOpenApi)

/-- A document that is accepted stays as it is. -/
theorem eq_of_checkDocument {document checked : Value} (h : checkDocument document = .ok checked) :
    checked = document := by
  unfold checkDocument at h
  split at h
  · split at h
    · exact (Except.ok.inj h).symm
    · cases h
  · cases h

/-! ## Results -/

/-- What a compilation gives. -/
structure Compilation where
  /-- The declarations, each after the ones it refers to as far as cycles allow. -/
  declarations : List Declaration
  /-- The problems in the order in which they were found. -/
  diagnostics : List Diagnostic
  /-- The cycles of references among the declarations. -/
  cycles : List (List Text)
  deriving Inhabited

/-- The report of a cycle. -/
def cycleDiagnostic (cycle : List Text) : Diagnostic :=
  { kind := .referenceCycle
    message := "declarations reference each other: " ++ Text.joinWith ", " cycle }

/-- The report of an identifier that names no declaration. -/
def danglingDiagnostic (d : Declaration) (name : Text) : Diagnostic :=
  { kind := .danglingReference
    message := d.name.display ++ " references undeclared " ++ Text.quoted name
    path := Reference.toSchema d.name.display }

/-- The reports of all identifiers that name none of the declarations. -/
def danglingDiagnostics (declarations : List Declaration) : List Diagnostic :=
  let known := Codec.declaredNames declarations
  declarations.flatMap fun d =>
    (d.references.filter fun name => !known.contains name).map (danglingDiagnostic d)

/-- The first problem that strict mode does not tolerate. -/
def firstIntolerable? (diagnostics : List Diagnostic) : Option Diagnostic :=
  diagnostics.find? fun d => d.kind == .unsupportedShape || d.kind == .danglingReference

/-! ## Compiling -/

/-- The classified component schemas of a document. -/
def classifyDocument (document : Value) : Logged (List Schema.Component) := do
  let components ← Schema.components document
  debug .classifier ("Classified " ++ Text.numeral components.length ++ " component schemas")
  return components

/-- The declarations of component schemas, with what was left out. -/
def buildDeclarations (config : Config) (components : List Schema.Component) :
    Logged (List Declaration × List Notice) := do
  let built := Declaration.buildAll config components
  let declarations ← built.mapTrace fun notice => ⟨.builder, .debug, notice.message⟩
  debug .builder ("Built " ++ Text.numeral declarations.length ++ " declarations")
  return (declarations, built.trace)

/-- The declarations in order. -/
def sortDeclarations (declarations : List Declaration) : Logged Order.Sorted := do
  let sorted ← Order.sort declarations
  Traced.note (sorted.broken.map fun name =>
    ⟨.sorter, .debug, "Breaking reference cycle at " ++ Text.quoted name⟩)
  return sorted

/-- The compilation of a document. -/
def compile (config : Config) (document : Value) : Logged Compilation := do
  let document ← checkDocument document
  let components ← classifyDocument document
  let (declarations, notices) ← buildDeclarations config components
  let sorted ← sortDeclarations declarations
  let diagnostics := notices.filterMap Notice.diagnostic? ++ sorted.cycles.map cycleDiagnostic ++
    danglingDiagnostics sorted.declarations
  Traced.note (diagnostics.map fun d => ⟨.compiler, .warning, d.text⟩)
  if config.strict.isTruthy then
    match firstIntolerable? diagnostics with
    | some d => Traced.fail (.strict d)
    | none => pure ()
  return { declarations := sorted.declarations, diagnostics, cycles := sorted.cycles }

/-- The module of codecs of a document. -/
def generate (config : Config) (document : Value) : Logged Text := do
  let compilation ← compile config document
  Codec.printModule config compilation.declarations

end SchemaCodecs
