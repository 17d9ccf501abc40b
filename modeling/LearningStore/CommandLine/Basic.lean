import LearningStore.CommandLine.Arguments
import LearningStore.Compile.Basic

/-!
# The command

The command reads its arguments, compiles, and prints what went wrong.  Everything
is printed on the standard output; the exit code tells success from failure.
-/

namespace LearningStore.CommandLine

open LearningStore.Compile
open LearningStore.Files

variable {m : Type → Type} [Monad m] [FileAccess m]

/-- The exit code of a run that did what was asked. -/
def succeeded : UInt32 := 0

/-- The exit code of a run that went wrong. -/
def failed : UInt32 := 1

/-- Answer arguments that lead to no compilation. -/
def Stop.answer : Stop → m UInt32
  | .help => do FileAccess.print helpText; pure succeeded
  | .version => do FileAccess.print versionText; pure succeeded
  | .failure e => do printLine e.message; pure failed

/-- Run the command and give its exit code. -/
def run (arguments : List String) : m UInt32 := do
  match parse arguments with
  | .error stop => stop.answer
  | .ok options =>
      match ← (compile options).run with
      | .ok _ => pure succeeded
      | .error e => do printLine e.report; pure failed

end LearningStore.CommandLine
