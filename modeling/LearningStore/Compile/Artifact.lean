import LearningStore.Helper.File
import LearningStore.Script.Upgrade

/-!
# Artifacts

The files that a compilation can write, each of them a text that a schema
determines.
-/

namespace LearningStore.Compile

open LearningStore.Helper
open LearningStore.Schema

inductive Artifact where
  | baseInit
  | componentsHelper
  | storageHelper
  | init
  | upgrade
  | helper (enumNamespace schemaNamespace : String)
deriving DecidableEq, Repr

namespace Artifact

/-- What messages call the artifact. -/
def title : Artifact → String
  | baseInit => "base init script"
  | componentsHelper => "components helper"
  | storageHelper => "storage helper"
  | init => "init script"
  | upgrade => "upgrade script"
  | helper _ _ => "helper"

/-- The text of the artifact for a schema. -/
def text (s : Schema) : Artifact → Except LookupError String
  | baseInit => (Script.init s).map Script.scriptText
  | componentsHelper => .ok (fileText (Helper.componentsHelper s {}))
  | storageHelper => (Helper.storageHelper s {}).map fileText
  | init => (Script.init s).map Script.scriptText
  | upgrade => (Script.upgrade s).map Script.scriptText
  | helper enumNamespace schemaNamespace =>
      (derivedHelper s {} enumNamespace schemaNamespace).map fileText

end Artifact

end LearningStore.Compile
