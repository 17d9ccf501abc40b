import LearningStore.Files.Error
import LearningStore.Files.Path

/-!
# Access to files

What the compiler needs of the world around it: to read and write whole files, to
make directories, and to print.  Everything else is built on these operations.
-/

namespace LearningStore.Files

/-- The operations on files and on the standard output. -/
class FileAccess (m : Type → Type) where
  /-- The bytes of a file. -/
  read : String → m (Except FileError (List UInt8))
  /-- Replace or make a file with a text. -/
  write : String → String → m (Except FileError Unit)
  /-- Make a directory inside one that exists. -/
  makeDirectory : String → m (Except FileError Unit)
  isDirectory : String → m Bool
  /-- Print a text as it is. -/
  print : String → m Unit

variable {m : Type → Type} [Monad m] [FileAccess m]

/-- The text of a file, in the encoding that its bytes show. -/
def readText (path : String) : m (Except FileError String) := do
  match ← FileAccess.read path with
  | .error e => pure (.error e)
  | .ok bytes =>
      match Text.textOfBytes bytes with
      | .ok text => pure (.ok text)
      | .error encoding => pure (.error (.undecodable encoding))

/-- Make a directory that may exist. -/
def settleDirectory (path : String) : m (Except FileError Unit) := do
  match ← FileAccess.makeDirectory path with
  | .error .alreadyExists =>
      if ← FileAccess.isDirectory path then pure (.ok ()) else pure (.error .alreadyExists)
  | made => pure made

/-- Make a directory that may exist, and those around it where they are missing.  The
directory itself comes first and the ones around it follow. -/
def makeDirectories : List String → m (Except FileError Unit)
  | [] => pure (.ok ())
  | nearest :: outer => do
      match ← settleDirectory nearest with
      | .error .notFound =>
          match ← makeDirectories outer with
          | .ok () => settleDirectory nearest
          | .error e => pure (.error e)
      | made => pure made

/-- Write a file and make the directories around it. -/
def writeText (path text : String) : m (Except FileError Unit) := do
  match ← makeDirectories ((Path.ofText path).parents.map Path.text) with
  | .ok () => FileAccess.write path text
  | .error e => pure (.error e)

/-- Print a text and end the line. -/
def printLine (text : String) : m Unit :=
  FileAccess.print (text ++ "\n")

end LearningStore.Files
