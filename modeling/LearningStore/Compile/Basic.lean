import LearningStore.Compile.Options
import LearningStore.Compile.Source

/-!
# Compilation

A compilation writes the outputs of the base schema first and loads the derived
schema after that.  An input without outputs is only checked.  Each artifact is
complete before its file is touched.
-/

namespace LearningStore.Compile

open LearningStore.Files
open LearningStore.Schema

variable {m : Type → Type} [Monad m] [FileAccess m]

/-- Print a line of a report, if one is wanted. -/
def note (verbose : Bool) (text : String) : ExceptT CompileError m Unit :=
  if verbose then ExceptT.lift (printLine text) else pure ()

/-- What a report says about a loaded schema. -/
def counts (s : Schema) : String :=
  "Loaded " ++ toString s.enums.length ++ " enums, " ++ toString s.itemTypes.length ++
    " item types, " ++ toString s.views.length ++ " views and " ++
    toString s.rights.length ++ " rights"

/-- Load a schema and report on it. -/
def loadNoting (o : Options) (title : String) (derived : Option String) :
    ExceptT CompileError m Schema := do
  note o.verbose title
  let s ← load (.ofPath o.baseSchema) derived
  note o.verbose (counts s)
  pure s

/-- Write an artifact of a schema. -/
def writeOutput (verbose : Bool) (s : Schema) (output : Output) :
    ExceptT CompileError m String := do
  note verbose ("Writing " ++ output.artifact.title ++ ": " ++ output.path)
  let text ← (output.artifact.text s).mapError CompileError.lookup
  attempt (.unwritable output.path) (writeText output.path text)
  pure output.path

/-- Write the outputs of the base schema alone. -/
def compileBase (o : Options) : ExceptT CompileError m (List String) := do
  if o.baseOutputs.isEmpty then pure []
  else do
    let base := SchemaSource.ofPath o.baseSchema
    let s ← loadNoting o ("Loading base schema: " ++ base.name) none
    o.baseOutputs.mapM (writeOutput o.verbose s)

/-- Write the outputs of the derived schema, if there is an input. -/
def compileDerived (o : Options) : ExceptT CompileError m (List String) := do
  match o.input with
  | none => pure []
  | some input => do
      let base := SchemaSource.ofPath o.baseSchema
      let s ← loadNoting o
        ("Loading schema: " ++ input ++ " (base: " ++ base.name ++ ")") (some input)
      o.derivedOutputs.mapM (writeOutput o.verbose s)

/-- Do everything that the options ask for, and list the files written. -/
def compile (o : Options) : ExceptT CompileError m (List String) := do
  o.validate.mapError CompileError.options
  let base ← compileBase o
  let derived ← compileDerived o
  let written := base ++ derived
  note o.verbose ("Wrote " ++ toString written.length ++ " file(s)")
  pure written

end LearningStore.Compile
