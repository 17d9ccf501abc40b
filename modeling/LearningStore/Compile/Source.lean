import LearningStore.Compile.Error
import LearningStore.Files.Access
import LearningStore.Schema.BaseText

/-!
# Loading a schema

A schema starts from the base schema, which is built in or comes from a file, and
goes on with a derived schema from a file where there is one.  The base schema is
applied before the derived file is opened.
-/

namespace LearningStore.Compile

open LearningStore.Files
open LearningStore.Schema

/-- Where the base schema comes from. -/
inductive SchemaSource where
  | builtIn
  | file (path : String)
deriving DecidableEq, Repr

namespace SchemaSource

/-- The source with an optional path. -/
def ofPath : Option String → SchemaSource
  | none => builtIn
  | some path => file path

/-- The name of the source in problems. -/
def name : SchemaSource → String
  | builtIn => baseName
  | file path => path

end SchemaSource

/-- The drafts with a file applied, or the problems that it brings. -/
def applyFile (d : Drafts) (text fileName : String) (inBase : Bool) :
    Except CompileError Drafts :=
  (d.applyText text fileName inBase).toExcept.mapError .invalid

/-- The schema of some drafts. -/
def finishDrafts (d : Drafts) : Except CompileError Schema :=
  d.finish.mapError .invalid

variable {m : Type → Type} [Monad m] [FileAccess m]

/-- Go on with the value of an operation on files, or fail over its error. -/
def attempt {α : Type} (failure : FileError → CompileError)
    (operation : m (Except FileError α)) : ExceptT CompileError m α :=
  ExceptT.mk ((fun result => result.mapError failure) <$> operation)

/-- The text of a schema file. -/
def readSchema (path : String) : ExceptT CompileError m String :=
  attempt (.unreadable path) (readText path)

/-- The text of a base schema. -/
def readSource : SchemaSource → ExceptT CompileError m String
  | .builtIn => pure baseText
  | .file path => readSchema path

/-- The schema of a base schema, and of a derived schema on top of it where a path
leads to one. -/
def load (base : SchemaSource) (derived : Option String) :
    ExceptT CompileError m Schema := do
  let baseDrafts ← applyFile {} (← readSource base) base.name true
  match derived with
  | none => finishDrafts baseDrafts
  | some path => do
      let drafts ← applyFile baseDrafts (← readSchema path) path false
      finishDrafts drafts

end LearningStore.Compile
