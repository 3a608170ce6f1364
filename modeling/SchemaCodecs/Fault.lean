/-
# Faults

Everything that can end a computation early, by cause.  The first group is reported to the user as
an error of the document, of the schemas in strict mode, or of the output; the second is a refusal
of the file system that is not reported; the third concerns a text that is not one of the accepted
ones; the fourth is an ill-typed input that an operation meets; then there is a text that cannot be
encoded, and a value that contains itself and is gone through.  The last one leaves open which of two
faults of a file is met.
-/
import SchemaCodecs.Diagnostic
import SchemaCodecs.FileTree.Path
import SchemaCodecs.Value.Display

namespace SchemaCodecs

open Text

/-! ## Refusals of the file system -/

/-- Why an operation on files was refused. -/
inductive FileFault where
  /-- Nothing is there. -/
  | missing (path : Text)
  /-- Something is already there. -/
  | occupied (path : Text)
  /-- A part of the path is not a directory. -/
  | notDirectory (path : Text)
  /-- A directory stands where a file is needed. -/
  | isDirectory (path : Text)
  /-- A directory stands where a temporary file should be moved. -/
  | blockedMove (source target : Text)
  /-- The place to move to has no name of its own. -/
  | busy (source target : Text)
  /-- A name on the path, or the path as a whole, is too long. -/
  | tooLong (path : Text)
  deriving DecidableEq, Inhabited

/-- The text of a refusal, with its number. -/
def FileFault.message : FileFault → Text
  | missing path => "[Errno 2] No such file or directory: " ++ quoted path
  | occupied path => "[Errno 17] File exists: " ++ quoted path
  | notDirectory path => "[Errno 20] Not a directory: " ++ quoted path
  | isDirectory path => "[Errno 21] Is a directory: " ++ quoted path
  | blockedMove source target =>
    "[Errno 21] Is a directory: " ++ quoted source ++ " -> " ++ quoted target
  | busy source target =>
    "[Errno 16] Device or resource busy: " ++ quoted source ++ " -> " ++ quoted target
  | tooLong path => "[Errno 36] File name too long: " ++ quoted path

/-! ## Errors of the document -/

/-- Why a document cannot be used. -/
inductive DocumentFault where
  /-- It is no mapping with the format's marker. -/
  | notOpenApi
  /-- A file cannot be read. -/
  | unreadable (path : Text) (cause : FileFault)
  /-- A file is not well formed. -/
  | unparsable (path : Text)
  /-- A reference leads out of the file system. -/
  | remote (ref : Text)
  /-- The fragment of a reference is no pointer. -/
  | badPointer (ref : Text)
  /-- The pointer of a reference leads nowhere. -/
  | unresolved (ref : Text)
  /-- Two files define a bundled schema differently. -/
  | conflicting (name : Text)
  /-- A bundled schema has the name of another schema of the document. -/
  | clashing (name : Text)
  deriving DecidableEq, Inhabited

/-- The text of an error of the document. -/
def DocumentFault.message : DocumentFault → Text
  | notOpenApi => "input document must use openapi format"
  | unreadable path cause => "cannot read " ++ path ++ ": " ++ cause.message
  | unparsable path => "cannot parse " ++ path
  | remote ref => "remote references are not supported: " ++ ref
  | badPointer ref => "unsupported JSON pointer in " ++ ref
  | unresolved ref => "cannot resolve " ++ ref
  | conflicting name =>
    "bundled schema " ++ quoted name ++ " is defined differently in more than one file"
  | clashing name =>
    "bundled schema " ++ quoted name ++ " clashes with an existing component schema"

/-! ## Errors of the output -/

/-- Why a text cannot be saved. -/
inductive WriteFault where
  /-- The file is there and must not be replaced. -/
  | exists (path : Text)
  /-- An operation on files was refused. -/
  | failed (path : Text) (cause : FileFault)
  deriving DecidableEq, Inhabited

/-- The text of an error of the output. -/
def WriteFault.message : WriteFault → Text
  | .exists path => "Output file already exists: " ++ path ++ ". Use force mode to overwrite."
  | .failed path cause => "failed to save project to " ++ path ++ ": " ++ cause.message

/-! ## Texts that are not accepted -/

/-- Why a text or value is not one of the accepted ones. -/
inductive InvalidFault where
  /-- The mode of writing has an unknown name. -/
  | writeMode (name : Text)
  /-- The policy for dangling references is none of the known ones. -/
  | danglingPolicy (value : Value)
  /-- A scalar of a document stands for no value of its type. -/
  | scalar (message : Text)
  /-- A number stands for no character. -/
  | codePoint
  /-- A numeral to be read has too many digits. -/
  | longNumeral (digits : Nat)
  /-- An integer to be shown has too many digits. -/
  | longInteger
  /-- A path holds the character NUL. -/
  | pathWithNul
  /-- No declaration of a cycle is left that could come first. -/
  | noCandidate
  deriving Inhabited

/-- The complaint about the number of digits of an integer, with the number if it is known. -/
def digitLimitMessage (digits : Option Nat) : Text :=
  let found := match digits with
    | some n => ": value has " ++ Text.numeral n ++ " digits"
    | none => ""
  "Exceeds the limit (" ++ Text.numeral Number.digitLimit ++
    " digits) for integer string conversion" ++ found ++
    "; use sys.set_int_max_str_digits() to increase the limit"

/-- The text of a complaint about a text or value. -/
def InvalidFault.message : InvalidFault → Text
  | writeMode name => quoted name ++ " is not a valid OutputMode"
  | danglingPolicy value =>
    "dangling_reference_policy must be one of identifier, unknown, got " ++ value.expression
  | scalar message => message
  | codePoint => "chr() arg not in range(0x110000)"
  | longNumeral digits => digitLimitMessage (some digits)
  | longInteger => digitLimitMessage none
  | pathWithNul => "embedded null byte"
  | noCandidate => "min() arg is an empty sequence"

/-! ## Ill-typed inputs -/

/-- What an operation finds in place of a value of the type it needs. -/
inductive IllTyped where
  /-- A value that is no mapping, or a thing without a part that is asked for. -/
  | lacksPart
  /-- A value that has no items to go through. -/
  | notIterable
  /-- A value that cannot be a key or a member of a set. -/
  | notHashable
  /-- A value that is no text where a text is needed. -/
  | notText
  /-- A value that has no members to search. -/
  | notSearchable
  /-- A value in place of an action. -/
  | notCallable
  /-- A value in place of a kind of thing. -/
  | notAKind
  /-- A primitive kind without a codec. -/
  | unknownPrimitive
  /-- A scalar whose text is none of the words of its type. -/
  | unknownWord
  /-- A scalar without text where a character is needed. -/
  | emptyText
  /-- A number beyond what can be computed with. -/
  | tooLarge
  /-- Something that is no type expression, by its name. -/
  | unprintable (name : Text)
  deriving DecidableEq, Inhabited

/-! ## Faults -/

/-- The cause that ends a computation. -/
inductive Fault where
  /-- The document cannot be used. -/
  | document (cause : DocumentFault)
  /-- Strict mode does not tolerate a recorded problem. -/
  | strict (diagnostic : Diagnostic)
  /-- The output cannot be saved. -/
  | write (cause : WriteFault)
  /-- An operation on files was refused where that is not reported. -/
  | refused (cause : FileFault)
  /-- A text or value is not one of the accepted ones. -/
  | invalid (cause : InvalidFault)
  /-- An operation meets an ill-typed input. -/
  | illTyped (cause : IllTyped)
  /-- A text with a lone surrogate cannot be encoded. -/
  | unencodable
  /-- Going through a value that contains itself has no end. -/
  | endless
  /-- Something written in a file stands for nothing, and the file cannot be read on behind it.  Which
  of the two is met first depends on how far the file is read ahead. -/
  | unsettled
  deriving Inhabited

/-- The fault of a text that names nothing. -/
def NameFault.fault : NameFault → Fault
  | unencodable => .unencodable
  | nul => .invalid .pathWithNul

/-- The text that goes with a fault, if it has one. -/
def Fault.message? : Fault → Option Text
  | document cause => some cause.message
  | strict diagnostic => some diagnostic.text
  | write cause => some cause.message
  | refused _ => none
  | invalid cause => some cause.message
  | illTyped (.unprintable name) => some ("Cannot translate " ++ name)
  | illTyped _ => none
  | unencodable => none
  | endless => none
  | unsettled => none

end SchemaCodecs
