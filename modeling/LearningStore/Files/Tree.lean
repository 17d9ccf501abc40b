import LearningStore.Files.Access

/-!
# File trees

A file tree says what stands at each place: a file with its bytes, a directory, or
nothing.  A place is the names that lead to it from the root.  Access to files in a
tree needs no operating system, so whatever is built on it can be run and reasoned
about as a function from tree to tree.
-/

namespace LearningStore.Files

/-- The names that lead from the root to an entry. -/
abbrev Place := List String

inductive Entry where
  | file (bytes : List UInt8)
  | directory
deriving DecidableEq, Repr

/-- The entries of a tree and the place from which relative paths lead.  The root is
always a directory. -/
structure FileTree where
  working : Place := []
  entries : List (Place × Entry) := []
deriving DecidableEq, Repr

namespace FileTree

/-- What stands at a place. -/
def entry? (t : FileTree) : Place → Option Entry
  | [] => some .directory
  | place => t.entries.lookup place

/-- The tree with an entry at a place, in front of what stood there. -/
def put (t : FileTree) (place : Place) (entry : Entry) : FileTree :=
  { t with entries := (place, entry) :: t.entries.filter fun e => e.1 != place }

/-- The place that a name leads to. -/
def next (here : Place) (name : String) : Place :=
  if name = "." then here else if name = ".." then here.dropLast else here ++ [name]

/-- The most bytes that a name may have. -/
def maxNameBytes : Nat := 255

/-- The most bytes that a path may have. -/
def maxPathBytes : Nat := 4095

/-- The place that a name leads to from a directory. -/
def step (t : FileTree) (here : Place) (name : String) : Except FileError Place :=
  match t.entry? here with
  | none => .error .notFound
  | some (.file _) => .error .notADirectory
  | some .directory =>
      if maxNameBytes < name.utf8ByteSize then .error .nameTooLong
      else .ok (next here name)

/-- The place that names lead to.  Every directory on the way has to exist; what
stands at the end is not looked at. -/
def walk (t : FileTree) (here : Place) : List String → Except FileError Place
  | [] => .ok here
  | name :: rest =>
      match t.step here name with
      | .error e => .error e
      | .ok place => t.walk place rest

/-- The path that a text spells.  The empty text spells none. -/
def readPath (text : String) : Except FileError Path :=
  if text.toList.contains '\x00' then .error .nulCharacter
  else if text.isEmpty then .error .notFound
  else if maxPathBytes < text.utf8ByteSize then .error .nameTooLong
  else .ok (Path.ofText text)

/-- The place from which a path leads. -/
def origin (t : FileTree) (p : Path) : Place :=
  if p.absolute then [] else t.working

/-- The place that a path leads to. -/
def locate (t : FileTree) (path : String) : Except FileError Place := do
  let p ← readPath path
  t.walk (t.origin p) p.names

/-- The bytes of the file at the end of a path. -/
def read (t : FileTree) (path : String) : Except FileError (List UInt8) := do
  let place ← t.locate path
  match t.entry? place with
  | none => throw .notFound
  | some .directory => throw .isADirectory
  | some (.file bytes) =>
      if (Path.ofText path).endsInSlash then throw .notADirectory else pure bytes

/-- The tree with a file at the end of a path.  A name with a slash behind it cannot
be that of a file and is not looked at: the directory around it stands for it. -/
def write (t : FileTree) (path : String) (bytes : List UInt8) :
    Except FileError FileTree := do
  let p ← readPath path
  let names := if p.endsInSlash then p.names.dropLast ++ ["."] else p.names
  let place ← t.walk (t.origin p) names
  if t.entry? place = some .directory then throw .isADirectory
  pure (t.put place (.file bytes))

/-- The tree with a new directory at the end of a path. -/
def makeDirectory (t : FileTree) (path : String) : Except FileError FileTree := do
  let place ← t.locate path
  match t.entry? place with
  | none => pure (t.put place .directory)
  | some _ => throw .alreadyExists

def isDirectory (t : FileTree) (path : String) : Bool :=
  match t.locate path with
  | .ok place => t.entry? place == some .directory
  | .error _ => false

end FileTree

/-- A file tree and the text printed so far. -/
structure Workspace where
  files : FileTree := {}
  output : String := ""
deriving DecidableEq, Repr

namespace Workspace

/-- Go on with a changed tree, or keep the tree and report why it does not
change. -/
def change (f : FileTree → Except FileError FileTree) :
    StateM Workspace (Except FileError Unit) := fun w =>
  match f w.files with
  | .ok files => (.ok (), { w with files := files })
  | .error e => (.error e, w)

instance : FileAccess (StateM Workspace) where
  read path := fun w => (w.files.read path, w)
  write path text := change fun t => t.write path text.toUTF8.data.toList
  makeDirectory path := change fun t => t.makeDirectory path
  isDirectory path := fun w => (w.files.isDirectory path, w)
  print text := fun w => ((), { w with output := w.output ++ text })

end Workspace

end LearningStore.Files
