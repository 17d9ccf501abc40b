import LearningStore.Script.Document
import LearningStore.Script.Function

/-!
# Statements

The statements that scripts are made of, and the lines that each one is written
as.  Snippets of a schema file stand in a script as they are, trimmed.
-/

namespace LearningStore.Script

open LearningStore.Schema
open LearningStore.Text

/-- The database role to which every object is granted. -/
def role : String := "LearningStore"

/-- What the role may do with an object. -/
inductive Permission where
  | select
  | change
  | execute
deriving DecidableEq, Repr

namespace Permission

def text : Permission → String
  | select => "SELECT"
  | change => "SELECT, INSERT, DELETE, UPDATE"
  | execute => "EXECUTE"

end Permission

inductive Statement where
  /- Layout and batches. -/
  | comment (text : String)
  | blank
  | endBatch
  | snippet (text : String)
  /- The session. -/
  | raiseIf (condition message : String)
  | turnOn (setting : String)
  | commit
  /- The table with the stored document. -/
  | createConfiguration
  | setDocument (records : List Record)
  | insertConfiguration
  /- Tables. -/
  | createRole
  | grantConfiguration
  | grant (permission : Permission) (object : String)
  | createEnumTable (name : String)
  | identityInsert (table : String) (on : Bool)
  | insertRow (table : String) (id : Int) (name : String)
  | createTable (name : String) (columns : List TableColumn)
  | addForeignKey (key : ForeignKey)
  /- Functions. -/
  | createFunction (function : SqlFunction)
  | dropRecorded
  /- Changes of the stored document. -/
  | declareCommand
  | deleteAttribute (name : String)
  | deleteRecords (element : String)
  | insertAttribute (itemType name value : String)
  | insertRecord (r : Record)
deriving DecidableEq, Repr

/-- The attributes of the stored document that hold names of functions, with the
elements they stand on. -/
def recordedFunctions : List (String × String) :=
  [("Function", "View"), ("SecurityFunction", "View"), ("ViewSecurityFunction", "ItemType"),
    ("AddSecurityFunction", "ItemType"), ("DeleteSecurityFunction", "ItemType"),
    ("UpdateSecurityFunction", "ItemType"), ("SecurityFunction", "Right")]

/-- The query for the functions that one attribute holds. -/
def recordedQuery (entry : String × String) : List Line :=
  [line ("SELECT V.value('@" ++ entry.1 ++ "', 'nvarchar(100)')"),
    line "FROM Configuration",
    line ("CROSS APPLY SchemaDefinition.nodes('/StoreSchema/" ++ entry.2 ++ "') AS Result(V)"),
    line ("WHERE V.value('@" ++ entry.1 ++ "','nvarchar(100)') IS NOT NULL")]

/-- The loop that drops every function that the stored document records. -/
def dropLines : List Line :=
  [line "DECLARE @name varchar(100)", line "DECLARE @command varchar(max)",
    line "DECLARE DropCursor CURSOR LOCAL FOR"] ++
  List.intercalate [line "UNION"] (recordedFunctions.map recordedQuery) ++
  [line "OPEN DropCursor", line "FETCH NEXT FROM DropCursor INTO @name",
    line "WHILE @@FETCH_STATUS = 0", line "BEGIN"] ++
  indented
    [line "SET @command = 'DROP FUNCTION [' + @name + ']'", line "EXEC(@command)",
      line "FETCH NEXT FROM DropCursor INTO @name"] ++
  [line "END", line "DEALLOCATE DropCursor"]

/-- A change of the stored document by a command of its query language. -/
def modifyLine (command : String) : Line :=
  line ("UPDATE Configuration SET SchemaDefinition.modify('" ++ command ++ "')")

namespace Statement

/-- The lines of a statement. -/
def lines : Statement → List Line
  | comment text => [line ("-- " ++ text)]
  | blank => [blankLine]
  | endBatch => [line "GO"]
  | snippet text => statementLines text
  | raiseIf condition message =>
      [line ("IF " ++ condition), line "BEGIN"] ++
      indented [line ("RAISERROR(N" ++ sqlString message ++ ",16,1)"), line "RETURN"] ++
      [line "END"]
  | turnOn setting => [line ("SET " ++ setting ++ " ON")]
  | commit => [line "COMMIT TRANSACTION"]
  | createConfiguration =>
      [line "CREATE TABLE Configuration ("] ++
      indented [line "EngineVersion int NOT NULL,", line "SchemaDefinition xml NOT NULL"] ++
      [line ")"]
  | setDocument rs => documentLines rs
  | insertConfiguration =>
      [line "INSERT INTO Configuration ("] ++
      indented [line "EngineVersion,", line "SchemaDefinition"] ++
      [line ") VALUES ("] ++ indented [line "1,@schema"] ++ [line ")"]
  | createRole => [line ("CREATE ROLE " ++ role)]
  | grantConfiguration => [line ("GRANT SELECT ON Configuration TO " ++ role)]
  | grant permission object =>
      [line ("GRANT " ++ permission.text ++ " ON " ++ bracketed object ++ " TO " ++ role)]
  | createEnumTable name =>
      [line ("CREATE TABLE " ++ bracketed name ++ "(")] ++
      indented [line "Id int IDENTITY PRIMARY KEY,", line "Name varchar(63) NOT NULL"] ++
      [line ")"]
  | identityInsert table on =>
      [line ("SET IDENTITY_INSERT " ++ bracketed table ++ if on then " ON" else " OFF")]
  | insertRow table id name =>
      [line ("INSERT INTO " ++ bracketed table ++ "(")] ++
      indented [line "Id,", line "Name"] ++ [line ") VALUES ("] ++
      indented [line (integerText id ++ ","), line (sqlString name)] ++ [line ")"]
  | createTable name columns =>
      [line ("CREATE TABLE " ++ bracketed name ++ "(")] ++
      indented (commaLines (idDefinition :: columns.map TableColumn.definition)) ++
      [line ")"]
  | addForeignKey k =>
      [line ("ALTER TABLE " ++ bracketed k.table),
        line ("ADD CONSTRAINT " ++ k.name ++ " FOREIGN KEY (" ++ bracketed k.column ++ ")"),
        line ("REFERENCES " ++ bracketed k.target ++ " (Id)" ++
          if k.cascade then " ON DELETE CASCADE" else "")]
  | createFunction function => function.lines
  | dropRecorded => dropLines
  | declareCommand => [line "DECLARE @command varchar(max)"]
  | deleteAttribute name => [modifyLine ("delete /StoreSchema/ItemType/@" ++ name)]
  | deleteRecords element => [modifyLine ("delete /StoreSchema/" ++ element)]
  | insertAttribute itemType name value =>
      [modifyLine ("insert attribute " ++ name ++ "\x7b\"" ++ value ++
        "\"\x7d into /StoreSchema[1]/ItemType[@Name=\"" ++ itemType ++ "\"][1]")]
  | insertRecord r =>
      [line "SET @command = 'UPDATE Configuration SET SchemaDefinition.modify(''insert ' +"] ++
      indented (r.lines ++ [line "+ ' into /StoreSchema[1]'')'"]) ++
      [line "EXEC(@command)"]

end Statement

/-- The lines of a sequence of statements. -/
def scriptLines (script : List Statement) : List Line :=
  script.flatMap Statement.lines

/-- The text of a sequence of statements. -/
def scriptText (script : List Statement) : String :=
  renderLines (scriptLines script)

end LearningStore.Script
