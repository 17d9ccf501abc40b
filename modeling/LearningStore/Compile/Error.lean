import LearningStore.Files.Error
import LearningStore.Schema.Basic

/-!
# Failures of a compilation

A compilation fails over its options, over a file that it cannot read or write, or
over what the schema files say.  A failure that rests on another one is reported
with it.
-/

namespace LearningStore.Compile

open LearningStore.Files
open LearningStore.Schema

/-- Options that make no meaningful compilation. -/
inductive OptionsError where
  | inputMissing
  | namespacesMissing
  | nothingToDo
deriving DecidableEq, Repr

namespace OptionsError

def message : OptionsError → String
  | inputMissing =>
      "/OutputInit, /OutputUpgrade and /OutputHelper require an input schema file"
  | namespacesMissing => "/OutputHelper requires /Namespace and /SchemaNamespace"
  | nothingToDo => "Nothing to do: give an input schema file or at least one output"

end OptionsError

inductive CompileError where
  | options (error : OptionsError)
  | unreadable (path : String) (error : FileError)
  | unwritable (path : String) (error : FileError)
  | invalid (problems : Problems)
  | lookup (error : LookupError)
deriving DecidableEq, Repr

namespace CompileError

def message : CompileError → String
  | options error => error.message
  | unreadable path _ => "Failed to read schema file: " ++ path
  | unwritable path _ => "Failed to write output file: " ++ path
  | invalid problems => problems.text
  | lookup error => error.message

/-- The message of the failure on which this one rests.  Problems of a schema are a
failure of their own, with the same message. -/
def reason? : CompileError → Option String
  | unreadable _ error => some error.message
  | unwritable _ error => some error.message
  | invalid problems => some problems.text
  | _ => none

/-- The message, and the message of the reason behind a colon. -/
def report (e : CompileError) : String :=
  ": ".intercalate (e.message :: e.reason?.toList)

end CompileError

end LearningStore.Compile
