import LearningStore.Compile.Artifact
import LearningStore.Compile.Error

/-!
# Options of a compilation

The options name the schema files to read and the artifacts to write.  The outputs
of the base schema alone come first, in an order of their own; those of the derived
schema need an input.
-/

namespace LearningStore.Compile

structure Options where
  input : Option String := none
  baseSchema : Option String := none
  outputInit : Option String := none
  outputUpgrade : Option String := none
  outputHelper : Option String := none
  enumNamespace : Option String := none
  schemaNamespace : Option String := none
  outputComponentsHelper : Option String := none
  outputStorageHelper : Option String := none
  outputBaseInit : Option String := none
  verbose : Bool := false
deriving DecidableEq, Repr

/-- An artifact and where it goes. -/
structure Output where
  artifact : Artifact
  path : String
deriving DecidableEq, Repr

/-- The output of an artifact to an optional path. -/
def Artifact.toPath (artifact : Artifact) (path : Option String) : List Output :=
  path.toList.map fun path => ⟨artifact, path⟩

namespace Options

/-- The outputs of the base schema alone, in the order of their writing. -/
def baseOutputs (o : Options) : List Output :=
  Artifact.baseInit.toPath o.outputBaseInit ++
    Artifact.componentsHelper.toPath o.outputComponentsHelper ++
    Artifact.storageHelper.toPath o.outputStorageHelper

/-- The output of the helper of the derived schema, which needs two namespaces. -/
def helperOutput (o : Options) : List Output :=
  match o.enumNamespace, o.schemaNamespace with
  | some enums, some schema => (Artifact.helper enums schema).toPath o.outputHelper
  | _, _ => []

/-- The outputs of the derived schema, in the order of their writing. -/
def derivedOutputs (o : Options) : List Output :=
  Artifact.init.toPath o.outputInit ++ Artifact.upgrade.toPath o.outputUpgrade ++
    o.helperOutput

/-- Whether some output of the derived schema is asked for. -/
def wantsDerived (o : Options) : Bool :=
  o.outputInit.isSome || o.outputUpgrade.isSome || o.outputHelper.isSome

/-- Refuse options that make no meaningful compilation. -/
def validate (o : Options) : Except OptionsError Unit :=
  if o.wantsDerived && o.input.isNone then .error .inputMissing
  else if o.outputHelper.isSome && (o.enumNamespace.isNone || o.schemaNamespace.isNone) then
    .error .namespacesMissing
  else if o.baseOutputs.isEmpty && !o.wantsDerived && o.input.isNone then .error .nothingToDo
  else .ok ()

end Options

end LearningStore.Compile
