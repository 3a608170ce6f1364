/-
# The log

Lines about the progress of a run, with the part of the program they come from.
-/
import SchemaCodecs.Traced

namespace SchemaCodecs

/-- The parts of the program that write to the log. -/
inductive LogSource where
  /-- Reading and bundling documents. -/
  | loader
  /-- Classifying schemas. -/
  | classifier
  /-- Building declarations. -/
  | builder
  /-- Ordering declarations. -/
  | sorter
  /-- Compiling documents. -/
  | compiler
  /-- Saving the output. -/
  | writer
  deriving DecidableEq, Inhabited

/-- The name under which a part of the program writes to the log. -/
def LogSource.name : LogSource → Text
  | loader => "openapi_to_io_ts.pipeline.loader"
  | classifier => "openapi_to_io_ts.pipeline.schema_ast.classifier"
  | builder => "openapi_to_io_ts.pipeline.analyzer.analyzer"
  | sorter => "openapi_to_io_ts.pipeline.analyzer.dependency_sorter"
  | compiler => "openapi_to_io_ts.pipeline.generator"
  | writer => "openapi_to_io_ts.pipeline.output.atomic_writer"

/-- How important a line is. -/
inductive LogLevel where
  /-- Only of interest in a verbose run. -/
  | debug
  /-- Always of interest. -/
  | warning
  deriving DecidableEq, Inhabited

/-- The name of a level. -/
def LogLevel.name : LogLevel → Text
  | debug => "DEBUG"
  | warning => "WARNING"

/-- A line of the log. -/
structure LogRecord where
  /-- The part of the program it comes from. -/
  source : LogSource
  /-- Its importance. -/
  level : LogLevel
  /-- What it says. -/
  message : Text
  deriving DecidableEq, Inhabited

/-- A line of the log as it is written. -/
def LogRecord.line (record : LogRecord) : Text :=
  record.source.name ++ " - " ++ record.level.name ++ " - " ++ record.message ++ "\n"

/-- A computation that writes to the log. -/
abbrev Logged (α : Type) := Traced LogRecord α

/-- The computation that writes one line for verbose runs. -/
def debug (source : LogSource) (message : Text) : Logged Unit :=
  Traced.note [⟨source, .debug, message⟩]

end SchemaCodecs
