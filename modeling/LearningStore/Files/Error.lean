import LearningStore.Text.Encoding

/-!
# File errors

Why a file cannot be read or written.  Where the operating system says so, the wording
is its own, with the number of the error behind it.
-/

namespace LearningStore.Files

open LearningStore.Text

inductive FileError where
  | notFound
  | alreadyExists
  | notADirectory
  | isADirectory
  | nameTooLong
  /-- The path has a character that ends a text of the operating system. -/
  | nulCharacter
  | undecodable (encoding : Encoding)
  | other (reason : String)
deriving DecidableEq, Repr

namespace FileError

def message : FileError → String
  | notFound => "No such file or directory (os error 2)"
  | alreadyExists => "File exists (os error 17)"
  | notADirectory => "Not a directory (os error 20)"
  | isADirectory => "Is a directory (os error 21)"
  | nameTooLong => "File name too long (os error 36)"
  | nulCharacter => "file name contained an unexpected NUL byte"
  | undecodable encoding =>
      "File contains characters that are not valid " ++ encoding.name
  | other reason => reason

end FileError

end LearningStore.Files
