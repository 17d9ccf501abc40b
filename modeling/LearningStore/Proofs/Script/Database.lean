import LearningStore.Proofs.Script.Change
import LearningStore.Proofs.Script.Creation
import Mathlib.Data.Finset.Lattice.Lemmas
import Mathlib.Data.Finset.SDiff

/-!
# Running scripts

A database is, for this purpose, the names of its functions, the stored document, and the
variables of the batch that is running.  Statements that touch the document or its variables
are run from their text; a function is created under a name that has to be free, and is
dropped under one that has to be taken.  All other statements, and the snippets of a schema,
touch neither.
-/

namespace LearningStore.Script

open LearningStore.Schema
open LearningStore.Text
open LearningStore.Xml

structure Database where
  functions : Finset String
  document : Option (List Record)
  batch : Sql.Variables

/-- Why a script stops. -/
inductive Failure where
  | functionExists (name : String)
  | functionMissing
  | noDocument
  | documentExists
  | badDocument
  | badBatch
  | badChange
  | raised (message : String)

/-- The names that the stored document records for the functions to drop. -/
def recordedNames (rs : List Record) : List String :=
  recordedFunctions.flatMap fun entry =>
    (recordsNamed entry.2 rs).filterMap fun r => r.markup.attributes.lookup entry.1

/-- The condition that asks whether there is a stored document. -/
def missingDocument : String :=
  "NOT EXISTS(SELECT * FROM INFORMATION_SCHEMA.TABLES WHERE " ++
    "TABLE_NAME='Configuration')"

namespace Database

/-- A database without functions and without a stored document. -/
def fresh : Database := ⟨∅, none, []⟩

/-- Change the stored document by a query. -/
def modify (db : Database) (query : String) : Except Failure Database :=
  match db.document with
  | none => .error .noDocument
  | some rs =>
      match (Change.read? query).bind (Change.result? rs) with
      | none => .error .badChange
      | some changed => .ok { db with document := some changed }

/-- Do what a text that is run asks for.  It may not run a further text. -/
def modifyOnly (db : Database) : Sql.Effect → Except Failure Database
  | .modify query => db.modify query
  | .execute _ => .error .badBatch

/-- Do what a batch asks for.  A text that is run has no variables of the batch. -/
def perform (db : Database) : Sql.Effect → Except Failure Database
  | .modify query => db.modify query
  | .execute command =>
      match Sql.evaluate [] command with
      | none => .error .badBatch
      | some (_, effects) => effects.foldlM modifyOnly db

/-- Run the text of statements. -/
def runText (db : Database) (text : String) : Except Failure Database :=
  match Sql.evaluate db.batch text with
  | none => .error .badBatch
  | some (vs, effects) => effects.foldlM perform { db with batch := vs }

/-- Store the document that the variable holds. -/
def storeDocument (db : Database) : Except Failure Database :=
  match db.document, db.batch.lookup schemaVariable with
  | none, some (some text) =>
      match (Document.parse text).toOption.bind fun d => recordsOf? d.root with
      | none => .error .badDocument
      | some rs => .ok { db with document := some rs }
  | some _, _ => .error .documentExists
  | none, _ => .error .badDocument

/-- Drop every recorded function once.  The loop declares two variables. -/
def dropRecorded (db : Database) : Except Failure Database :=
  match db.document with
  | none => .error .noDocument
  | some rs =>
      if (recordedNames rs).toFinset ⊆ db.functions then
        .ok { db with
          functions := db.functions \ (recordedNames rs).toFinset
          batch := db.batch ++ [("@name", none), (commandVariable, none)] }
      else .error .functionMissing

end Database

namespace Statement

/-- Run a statement.  A script is never run against the database of the server itself. -/
def run (db : Database) : Statement → Except Failure Database
  | endBatch => .ok { db with batch := [] }
  | raiseIf condition message =>
      if condition = missingDocument ∧ db.document = none then .error (.raised message)
      else .ok db
  | createFunction f =>
      if f.name ∈ db.functions then .error (.functionExists f.name)
      else .ok { db with functions := insert f.name db.functions }
  | dropRecorded => db.dropRecorded
  | insertConfiguration => db.storeDocument
  | setDocument rs => db.runText (renderLines (setDocument rs).lines)
  | declareCommand => db.runText (renderLines declareCommand.lines)
  | deleteAttribute name => db.runText (renderLines (deleteAttribute name).lines)
  | deleteRecords element => db.runText (renderLines (deleteRecords element).lines)
  | insertAttribute itemType name value =>
      db.runText (renderLines (insertAttribute itemType name value).lines)
  | insertRecord r => db.runText (renderLines (insertRecord r).lines)
  | comment _ | blank | snippet _ | turnOn _ | commit | createConfiguration | createRole
  | grantConfiguration | grant _ _ | createEnumTable _ | identityInsert _ _
  | insertRow _ _ _ | createTable _ _ | addForeignKey _ => .ok db

end Statement

/-- Run the statements of a script in order. -/
def runScript (db : Database) (script : List Statement) : Except Failure Database :=
  script.foldlM Statement.run db

theorem runScript_append {db next : Database} {a b : List Statement}
    (first : runScript db a = .ok next) : runScript db (a ++ b) = runScript next b := by
  rw [runScript, List.foldlM_append]
  rw [runScript] at first
  rw [first]
  rfl

theorem runScript_append_error {db : Database} {failure : Failure} {a : List Statement}
    (stopped : runScript db a = .error failure) (b : List Statement) :
    runScript db (a ++ b) = .error failure := by
  rw [runScript, List.foldlM_append]
  rw [runScript] at stopped
  rw [stopped]
  rfl

theorem runScript_cons {db next : Database} {st : Statement} {rest : List Statement}
    (first : st.run db = .ok next) : runScript db (st :: rest) = runScript next rest := by
  rw [runScript, List.foldlM_cons, first]
  rfl

/-! ## Statements that change nothing -/

theorem run_raiseIf (db : Database) (condition message : String) :
    Statement.run db (.raiseIf condition message) =
      if condition = missingDocument ∧ db.document = none then .error (.raised message)
      else .ok db := rfl

theorem run_of_isPassive {st : Statement} (passive : st.isPassive = true) (db : Database) :
    st.run db = .ok db := by
  cases st with
  | endBatch | raiseIf | createFunction | dropRecorded | insertConfiguration | setDocument
  | declareCommand | deleteAttribute | deleteRecords | insertAttribute | insertRecord =>
      cases passive
  | _ => rfl

theorem Passive.runScript {script : List Statement} (passive : Passive script) (db : Database) :
    runScript db script = .ok db := by
  induction script with
  | nil => rfl
  | cons st rest ih =>
      obtain ⟨first, others⟩ := List.forall_mem_cons.mp passive
      rw [runScript_cons (run_of_isPassive first db)]
      exact ih others

/-- The guard against the database of the server itself never stops a script. -/
theorem runScript_guardMaster (db : Database) : runScript db guardMaster = .ok db := by
  have other : "DB_NAME()='master'" ≠ missingDocument := by
    decide
  have passed : Statement.run db (.raiseIf "DB_NAME()='master'"
      ("This script must not be run against the master database. Select a " ++
        "LearningStore database first.")) = .ok db := by
    rw [run_raiseIf]
    exact if_neg fun both => other both.1
  rw [guardMaster, runScript_cons passed]
  rfl

theorem runScript_closeBatch (db : Database) :
    runScript db closeBatch = .ok { db with batch := [] } := rfl

theorem runScript_commit (db : Database) :
    runScript db commit = .ok { db with batch := [] } := rfl

/-! ## Functions -/

section CreateFunctions

variable {document : Option (List Record)} {taken : Finset String}

theorem runScript_createFunction {d : Described} (free : d.function.name ∉ taken) :
    runScript ⟨taken, document, []⟩ (createFunction d) =
      .ok ⟨insert d.function.name taken, document, []⟩ := by
  have created : Statement.run ⟨taken, document, []⟩ (.createFunction d.function) =
      .ok ⟨insert d.function.name taken, document, []⟩ := if_neg free
  have commented : runScript ⟨taken, document, []⟩ [.comment d.purpose] =
      .ok ⟨taken, document, []⟩ := rfl
  rw [createFunction_eq, runScript_append commented, runScript_cons created]
  rfl

/-- Functions with different names, none of which is taken, are created. -/
theorem runScript_createFunctions {ds : List Described}
    (distinct : (ds.map fun d => d.function.name).Nodup)
    (free : ∀ d ∈ ds, d.function.name ∉ taken) :
    runScript ⟨taken, document, []⟩ (ds.flatMap createFunction) =
      .ok ⟨taken ∪ (ds.map fun d => d.function.name).toFinset, document, []⟩ := by
  induction ds generalizing taken with
  | nil =>
      rw [List.map_nil, List.toFinset_nil, Finset.union_empty]
      rfl
  | cons d rest ih =>
      obtain ⟨here, others⟩ := List.forall_mem_cons.mp free
      rw [List.map_cons, List.nodup_cons] at distinct
      have stillFree : ∀ e ∈ rest, e.function.name ∉ insert d.function.name taken := by
        intro e inside
        rw [Finset.mem_insert, not_or]
        exact ⟨fun same => distinct.1 (List.mem_map.mpr ⟨e, inside, same⟩), others e inside⟩
      rw [List.flatMap_cons, runScript_append (runScript_createFunction here),
        ih distinct.2 stillFree, List.map_cons, List.toFinset_cons, Finset.insert_union,
        Finset.union_insert]

/-- The script stops at a function whose name is taken. -/
theorem runScript_createFunctions_error {ds : List Described}
    (clash : ∃ d ∈ ds, d.function.name ∈ taken) :
    ∃ name ∈ ds.map (fun d => d.function.name),
      runScript ⟨taken, document, []⟩ (ds.flatMap createFunction) =
        .error (.functionExists name) := by
  induction ds generalizing taken with
  | nil =>
      obtain ⟨d, inside, -⟩ := clash
      cases inside
  | cons d rest ih =>
      by_cases here : d.function.name ∈ taken
      · refine ⟨d.function.name, List.mem_cons_self, ?_⟩
        have stopped : runScript ⟨taken, document, []⟩ (createFunction d) =
            .error (.functionExists d.function.name) := by
          have failed : Statement.run ⟨taken, document, []⟩ (.createFunction d.function) =
              .error (.functionExists d.function.name) := if_pos here
          have commented : runScript ⟨taken, document, []⟩ [.comment d.purpose] =
              .ok ⟨taken, document, []⟩ := rfl
          rw [createFunction_eq, runScript_append commented, runScript, List.foldlM_cons, failed]
          rfl
        exact runScript_append_error stopped _
      · obtain ⟨e, inside, clashes⟩ := clash
        have later : ∃ e ∈ rest, e.function.name ∈ insert d.function.name taken := by
          rcases List.mem_cons.mp inside with rfl | member
          · exact absurd clashes here
          · exact ⟨e, member, Finset.mem_insert_of_mem clashes⟩
        obtain ⟨name, member, stopped⟩ := ih later
        refine ⟨name, List.mem_cons_of_mem _ member, ?_⟩
        rw [List.flatMap_cons, runScript_append (runScript_createFunction here), stopped]

end CreateFunctions

/-! ## Changes of the document -/

section Changes

variable {functions : Finset String} {rs changed : List Record} {vs : Sql.Variables}

/-- A line that spells a change makes it. -/
theorem runText_modifyLine {query : String} (change : Change)
    (plain : '\'' ∉ query.toList) (read : Change.read? query = some change)
    (applied : change.result? rs = some changed) :
    Database.runText ⟨functions, some rs, vs⟩ (renderLines [modifyLine query]) =
      .ok ⟨functions, some changed, vs⟩ := by
  have made : Database.modify ⟨functions, some rs, vs⟩ query =
      .ok ⟨functions, some changed, vs⟩ := by
    simp [Database.modify, read, applied]
  unfold Database.runText
  rw [evaluate_modifyLine vs plain]
  simp only [List.foldlM_cons, List.foldlM_nil, Database.perform, made]
  rfl

theorem run_deleteAttribute (right : ItemRight) :
    Statement.run ⟨functions, some rs, vs⟩ (.deleteAttribute (securityAttribute right)) =
      .ok ⟨functions, some (rs.map fun r => if r.markup.name = "ItemType" then
        r.without (securityAttribute right) else r), vs⟩ := by
  refine runText_modifyLine (.deleteAttribute (securityAttribute right)) ?_ ?_ rfl
  · cases right <;> decide +kernel
  · cases right <;> decide +kernel

theorem run_deleteRecords {element : String} (kind : element = "View" ∨ element = "Right") :
    Statement.run ⟨functions, some rs, vs⟩ (.deleteRecords element) =
      .ok ⟨functions, some (rs.filter fun r => r.markup.name != element), vs⟩ := by
  refine runText_modifyLine (.deleteRecords element) ?_ ?_ rfl
  · rcases kind with rfl | rfl <;> decide +kernel
  · rcases kind with rfl | rfl <;> decide +kernel

theorem run_insertAttribute {itemType name value : String} (hItemType : Over isWordChar itemType)
    (hName : Over isWordChar name) (hValue : Over isWordChar value)
    (inserted : insertAttribute? itemType (name, value) rs = some changed) :
    Statement.run ⟨functions, some rs, vs⟩ (.insertAttribute itemType name value) =
      .ok ⟨functions, some changed, vs⟩ :=
  runText_modifyLine (.insertAttribute itemType name value)
    (attributeQuery_plain hItemType hName hValue)
    (Change.read?_attributeQuery hItemType hName hValue) inserted

/-- A command that is put together and run adds its record. -/
theorem run_insertRecord {r : Record} (simple : r.Simple) (before : Option String) :
    ∃ after, Statement.run ⟨functions, some rs, [(commandVariable, before)]⟩ (.insertRecord r) =
      .ok ⟨functions, some (rs ++ [r]), [(commandVariable, after)]⟩ := by
  refine ⟨some (modifyCommand (insertQuery r)), ?_⟩
  have made (vs : Sql.Variables) : Database.modify ⟨functions, some rs, vs⟩ (insertQuery r) =
      .ok ⟨functions, some (rs ++ [r]), vs⟩ := by
    simp [Database.modify, Change.read?_insertQuery simple, Change.result?]
  have text : Statement.run ⟨functions, some rs, [(commandVariable, before)]⟩
      (.insertRecord r) = Database.runText ⟨functions, some rs, [(commandVariable, before)]⟩
        (renderLines (Statement.insertRecord r).lines) := rfl
  have command := evaluate_modifyCommand [] (insertQuery_plain simple)
  rw [text, Database.runText]
  simp only [evaluate_insertRecord r before, List.foldlM_cons, List.foldlM_nil,
    Database.perform, command, Database.modifyOnly, made]
  rfl

end Changes

end LearningStore.Script
