import LearningStore.CommandLine.Basic

/-!
# The program

The command with access to the files of the operating system.
-/

namespace LearningStore

open LearningStore.Files

/-- The cause of an error of the operating system.  Some operations give the number
of an error with a minus sign. -/
def fileError (e : IO.Error) : FileError :=
  match e with
  | .noFileOrDirectory .. => .notFound
  | .alreadyExists .. => .alreadyExists
  | .inappropriateType _ code _ =>
      if code = 20 ∨ code = -20 then .notADirectory
      else if code = 21 ∨ code = -21 then .isADirectory
      else .other e.toString
  | .invalidArgument _ code _ =>
      if code = 36 ∨ code = -36 then .nameTooLong else .other e.toString
  | e => .other e.toString

/-- Run an action on files and give its error as a value. -/
def guarded {α : Type} (action : IO α) : IO (Except FileError α) := do
  try
    pure (.ok (← action))
  catch e =>
    pure (.error (fileError e))

instance : FileAccess IO where
  read path := guarded do pure (← IO.FS.readBinFile path).data.toList
  write path text := guarded (IO.FS.writeFile path text)
  makeDirectory path := guarded (IO.FS.createDir path)
  isDirectory path := do
    match ← guarded (IO.FS.realPath (path ++ "/.")) with
    | .ok _ => pure true
    | .error _ => pure false
  print text := IO.print text

end LearningStore

def main (arguments : List String) : IO UInt32 :=
  LearningStore.CommandLine.run arguments
