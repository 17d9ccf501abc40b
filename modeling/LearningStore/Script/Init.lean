import LearningStore.Script.Statement

/-!
# The script that creates a store

It creates the table with the stored document, the role, a table per enum and per
item type with their foreign keys and indexes, and all functions.  The snippets of
the schema come before and after.
-/

namespace LearningStore.Script

open LearningStore.Schema

/-- The comment at the top of every script. -/
def header : List Statement :=
  [.comment "This script was generated by store-schema-compiler.",
    .comment "Changes made by hand are lost when the script is regenerated.", .blank]

/-- No script runs against the database of the server itself. -/
def guardMaster : List Statement :=
  [.raiseIf "DB_NAME()='master'"
    ("This script must not be run against the master database. Select a " ++
      "LearningStore database first."), .blank]

def sessionSettings : List Statement :=
  [.turnOn "NOCOUNT", .turnOn "XACT_ABORT", .turnOn "IMPLICIT_TRANSACTIONS",
    .turnOn "QUOTED_IDENTIFIER", .blank]

/-- The end of a batch with a blank line after it. -/
def closeBatch : List Statement := [.endBatch, .blank]

/-- Snippets with a blank line after each. -/
def snippets (texts : List String) : List Statement :=
  texts.flatMap fun text => [.snippet text, .blank]

def configuration (rs : List Record) : List Statement :=
  [.comment "Create the table holding the engine version and the schema document",
    .createConfiguration, .setDocument rs, .insertConfiguration, .blank]

def createRole : List Statement :=
  [.comment ("Create the " ++ role ++ " role"), .createRole, .grantConfiguration, .blank]

/-- The rows of an enum table, which bring their identifiers with them. -/
def enumInserts (e : EnumType) : List Statement :=
  if e.values.isEmpty then []
  else
    .identityInsert e.name true ::
      (enumRows [] e.values).map (fun row => .insertRow e.name row.1 row.2) ++
      [.identityInsert e.name false]

def enumTable (e : EnumType) : List Statement :=
  [.comment ("Create the " ++ e.name ++ " table"), .createEnumTable e.name,
    .grant .select e.name] ++ enumInserts e ++ [.blank]

def itemTypeTable (i : ItemType) : List Statement :=
  [.comment ("Create the " ++ i.name ++ " table"),
    .createTable i.name (i.properties.map TableColumn.ofProperty),
    .grant .change i.name, .blank]

def foreignKeys (s : Schema) (i : ItemType) : Except LookupError (List Statement) :=
  (i.properties.mapM (ForeignKey.ofProperty s i)).map fun keys =>
    keys.flatten.flatMap fun k => [.addForeignKey k, .blank]

def constraintsAndIndexes (s : Schema) (i : ItemType) :
    Except LookupError (List Statement) :=
  (foreignKeys s i).map fun keys => keys ++ snippets i.indexes

/-- The creation of a function in batches of its own. -/
def createFunction (d : Described) : List Statement :=
  let permission := if d.function.body.isScalar then Permission.execute else .select
  [.comment d.purpose, .createFunction d.function, .endBatch,
    .grant permission d.function.name, .endBatch, .blank]

def createFunctions (s : Schema) (withDefaultViews : Bool) : List Statement :=
  (functions s withDefaultViews).flatMap createFunction

def commit : List Statement :=
  .commit :: closeBatch

/-- The script that creates a store for a schema. -/
def init (s : Schema) : Except LookupError (List Statement) := do
  let document ← records s
  let constraints ← s.itemTypes.mapM (constraintsAndIndexes s)
  pure (header ++ guardMaster ++ sessionSettings ++ snippets s.sqlBefore ++
    configuration document ++ createRole ++ s.enums.flatMap enumTable ++
    s.itemTypes.flatMap itemTypeTable ++ constraints.flatten ++ closeBatch ++
    createFunctions s true ++ snippets (s.itemTypes.flatMap fun i => i.sqlAfter) ++
    snippets s.sqlAfter ++ commit)

end LearningStore.Script
