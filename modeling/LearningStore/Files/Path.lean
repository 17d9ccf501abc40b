/-!
# Paths

A path is a text in which slashes part the names.  It leads from the root if it
starts with a slash and from the working directory otherwise.  A dot stays where it
is, and two dots lead one directory out.
-/

namespace LearningStore.Files

/-- The names between the slashes of a text, empty ones included. -/
def splitAtSlashes : List Char → List (List Char)
  | [] => [[]]
  | '/' :: rest => [] :: splitAtSlashes rest
  | c :: rest =>
      match splitAtSlashes rest with
      | [] => [[c]]
      | name :: names => (c :: name) :: names

/-- A path taken apart at its slashes.  A piece is empty in front of a slash that the
path starts with, between two slashes, and behind a slash at the end. -/
structure Path where
  pieces : List String
deriving DecidableEq, Repr

namespace Path

/-- The parts of the text of a path. -/
def ofText (text : String) : Path :=
  ⟨(splitAtSlashes text.toList).map String.ofList⟩

/-- The text of a path. -/
def text (p : Path) : String :=
  "/".intercalate p.pieces

/-- Whether the path leads from the root. -/
def absolute (p : Path) : Bool :=
  match p.pieces with
  | piece :: _ :: _ => piece.isEmpty
  | _ => false

/-- Whether a slash says that the path leads to a directory. -/
def endsInSlash (p : Path) : Bool :=
  match p.pieces.reverse with
  | piece :: _ :: _ => piece.isEmpty
  | _ => false

/-- The names that the path leads along. -/
def names (p : Path) : List String :=
  p.pieces.filter fun piece => !piece.isEmpty

/-- Whether a piece leads on, as a name and two dots do. -/
def leadsOn (piece : String) : Bool :=
  !piece.isEmpty && piece != "."

/-- The beginnings of some pieces that end in a piece that leads on, the longest
first. -/
def stages : List String → List (List String)
  | [] => []
  | piece :: rest =>
      (stages rest).map (piece :: ·) ++ (if leadsOn piece then [[piece]] else [])

/-- The directories that a path leads through, the nearest first. -/
def parents (p : Path) : List Path :=
  (stages p.pieces).tail.map fun pieces => ⟨pieces⟩

end Path

end LearningStore.Files
