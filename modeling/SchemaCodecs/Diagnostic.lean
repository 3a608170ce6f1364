/-
# Diagnostics

Problems of single schemas that a compilation records and survives.
-/
import SchemaCodecs.Text.Basic

namespace SchemaCodecs

/-- The kinds of recorded problem. -/
inductive DiagnosticKind where
  /-- A schema has no supported shape. -/
  | unsupportedShape
  /-- An identifier names no declaration. -/
  | danglingReference
  /-- Declarations refer to each other in a circle. -/
  | referenceCycle
  deriving DecidableEq, Inhabited

/-- The name of a kind as reports show it. -/
def DiagnosticKind.name : DiagnosticKind → Text
  | unsupportedShape => "unsupported_shape"
  | danglingReference => "dangling_reference"
  | referenceCycle => "reference_cycle"

/-- A recorded problem, with the place in the document it belongs to unless that is empty. -/
structure Diagnostic where
  /-- What sort of problem it is. -/
  kind : DiagnosticKind
  /-- What is wrong. -/
  message : Text
  /-- Where in the document. -/
  path : Text := ""
  deriving DecidableEq, Inhabited

/-- A problem as one line: kind, place and message. -/
def Diagnostic.text (d : Diagnostic) : Text :=
  let location : Text := if d.path.isEmpty then "" else " at " ++ d.path
  d.kind.name ++ location ++ ": " ++ d.message

end SchemaCodecs
