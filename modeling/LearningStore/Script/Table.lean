import LearningStore.Schema.Basic
import LearningStore.Text.Layout
import LearningStore.Text.Quoted

/-!
# Tables

A store has a table for every enum, which lists its values, and one for every item
type, with a column for the identifier and one for each property.
-/

namespace LearningStore.Script

open LearningStore.Schema
open LearningStore.Text
open LearningStore.Value

/-- A name in brackets. -/
def bracketed (name : String) : String :=
  "[" ++ name ++ "]"

/-- A column of an item type table. -/
structure TableColumn where
  name : String
  type : String
  rowGuid : Bool
  nullable : Bool
  default : Option DefaultValue
  checkedLength : Option Int
  constraints : List String
deriving DecidableEq, Repr

namespace TableColumn

def ofProperty (p : Property) : TableColumn :=
  { name := p.name
    type := p.sqlType
    rowGuid := p.rowGuid
    nullable := p.nullable
    default := p.default
    checkedLength := p.valueType.checkedLength p.length
    constraints := p.constraints }

/-- The clauses after the name and the type. -/
def clauses (c : TableColumn) : List String :=
  (if c.rowGuid then ["ROWGUIDCOL"] else []) ++
  (if c.nullable then [] else ["NOT NULL"]) ++
  (c.default.toList.map fun d => "DEFAULT " ++ d.sqlConstant) ++
  (c.checkedLength.toList.map fun n =>
    "CHECK(LEN(" ++ bracketed c.name ++ ")<=" ++ integerText n ++ ")") ++
  c.constraints.map trimmed

/-- The definition of the column. -/
def definition (c : TableColumn) : String :=
  " ".intercalate (bracketed c.name :: c.type :: c.clauses)

end TableColumn

/-- Lines with a comma after all but the last. -/
def commaLines : List String → List Line
  | [] => []
  | [last] => [line last]
  | item :: rest => line (item ++ ",") :: commaLines rest

/-- The column of item identifiers, which comes first in every item type table. -/
def idDefinition : String := "Id bigint IDENTITY PRIMARY KEY NOT NULL"

/-- The rows of an enum table.  Numbers are a primary key, so of several names for
one number the first has the row. -/
def enumRows (seen : List Int) : List EnumValue → List (Int × String)
  | [] => []
  | v :: rest =>
      if seen.contains v.value then enumRows seen rest
      else (v.value, v.name) :: enumRows (seen ++ [v.value]) rest

/-- A column whose values are identifiers of the rows of a table. -/
structure ForeignKey where
  table : String
  column : String
  target : String
  cascade : Bool
deriving DecidableEq, Repr

namespace ForeignKey

/-- The name of the constraint. -/
def name (k : ForeignKey) : String :=
  "FK_" ++ k.table ++ "_" ++ k.column

/-- The foreign key of a property, if its values are identifiers. -/
def ofProperty (s : Schema) (i : ItemType) (p : Property) :
    Except LookupError (List ForeignKey) :=
  match p.valueType with
  | .itemIdentifier =>
      (s.referencedItemType p.toMember).map fun target =>
        [⟨i.name, p.name, target.name, p.cascadeDelete⟩]
  | .enumeration =>
      (s.referencedEnum p.toMember).map fun target => [⟨i.name, p.name, target.name, false⟩]
  | _ => .ok []

end ForeignKey

end LearningStore.Script
