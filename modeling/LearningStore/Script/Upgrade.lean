import LearningStore.Script.Init

/-!
# The script that upgrades a store

It replaces the views and the security functions of a store, and what the stored
document records about them.  Tables, their data and the default views stay.
-/

namespace LearningStore.Script

open LearningStore.Schema

/-- A store to upgrade has a stored document. -/
def guardEmpty : List Statement :=
  [.raiseIf
    ("NOT EXISTS(SELECT * FROM INFORMATION_SCHEMA.TABLES WHERE " ++
      "TABLE_NAME='Configuration')")
    ("This database has no Configuration table. Run the full init script instead of " ++
      "the upgrade script."), .blank]

def dropFunctions : List Statement :=
  [.comment "Drop every view and security function recorded in the schema document",
    .dropRecorded, .blank]

/-- What the stored document records about guards, views and rights goes. -/
def deleteRecorded : List Statement :=
  recordedRights.map (fun right => .deleteAttribute (securityAttribute right)) ++
    [.deleteRecords "View", .deleteRecords "Right"]

/-- The guards of item types come back as attributes of their records. -/
def insertGuards (s : Schema) : List Statement :=
  s.itemTypes.flatMap fun i =>
    (securityAttributes i).map fun entry => .insertAttribute i.name entry.1 entry.2

def replaceDocument (s : Schema) : Except LookupError (List Statement) := do
  let views ← s.views.mapM (viewRecord s)
  let rights ← s.rights.mapM (rightRecord s)
  pure ([.comment "Replace the view, right and security information in the schema document",
    .declareCommand] ++ deleteRecorded ++ insertGuards s ++
    (views ++ rights).map .insertRecord)

/-- The script that upgrades a store to a schema. -/
def upgrade (s : Schema) : Except LookupError (List Statement) := do
  let document ← replaceDocument s
  pure (header ++ guardMaster ++ guardEmpty ++ sessionSettings ++ dropFunctions ++
    closeBatch ++ document ++ closeBatch ++ createFunctions s false ++ commit)

end LearningStore.Script
