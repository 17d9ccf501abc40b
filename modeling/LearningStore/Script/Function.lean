import LearningStore.Script.Table

/-!
# Functions

A store has a table-valued function for every view and for the default view of
every item type, and a security function for everything that some expression
grants.  Every function takes the key of the user first.
-/

namespace LearningStore.Script

open LearningStore.Schema
open LearningStore.Text
open LearningStore.Value

/-- A parameter after the key of the user. -/
structure FunctionParameter where
  name : String
  type : String
  default : Option DefaultValue
deriving DecidableEq, Repr

namespace FunctionParameter

def text (p : FunctionParameter) : String :=
  ",@" ++ p.name ++ " " ++ p.type ++
    String.join (p.default.toList.map fun d => "=" ++ d.sqlConstant)

end FunctionParameter

/-- What a function returns: whether one of some expressions grants a right, the
rows of a query, or columns of all rows of a table. -/
inductive FunctionBody where
  | granted (expressions : List String)
  | query (text : String)
  | everyRow (columns : List String) (table : String)
deriving DecidableEq, Repr

namespace FunctionBody

/-- Whether the function returns a single value and not a table. -/
def isScalar : FunctionBody → Bool
  | granted _ => true
  | _ => false

/-- The expressions joined by the operator or. -/
def union (expressions : List String) : String :=
  "RETURN " ++ " | ".intercalate (expressions.map fun e => "(" ++ e ++ ")")

/-- The statement or the query inside a function. -/
def inner : FunctionBody → List Line
  | granted expressions => statementLines (union expressions)
  | query text => statementLines text
  | everyRow columns table =>
      [line ("SELECT Id" ++ String.join (columns.map fun c => ", " ++ bracketed c)),
        line ("FROM " ++ bracketed table)]

/-- The part of a definition after the parameters. -/
def lines (body : FunctionBody) : List Line :=
  if body.isScalar then
    [line "RETURNS bit", line "AS", line "BEGIN"] ++ indented body.inner ++ [line "END"]
  else
    [line "RETURNS TABLE", line "AS", line "RETURN ("] ++ indented body.inner ++ [line ")"]

end FunctionBody

structure SqlFunction where
  name : String
  parameters : List FunctionParameter
  body : FunctionBody
deriving DecidableEq, Repr

namespace SqlFunction

/-- The parameters of a function, the key of the user first. -/
def header (f : SqlFunction) : String :=
  "CREATE FUNCTION " ++ bracketed f.name ++ "(@UserKey nvarchar(250)" ++
    String.join (f.parameters.map FunctionParameter.text) ++ ")"

def lines (f : SqlFunction) : List Line :=
  line f.header :: f.body.lines

end SqlFunction

/-! ## The functions of a schema -/

/-- A function with what the comment above it says. -/
structure Described where
  purpose : String
  function : SqlFunction
deriving DecidableEq, Repr

/-- The parameter with the identifier of the item. -/
def idParameter : FunctionParameter := ⟨"Id", "bigint", none⟩

/-- The parameters of a function that guards a right on items: for updates whether
each property changes and its value, for additions its value or its default. -/
def itemRightParameters (i : ItemType) : ItemRight → List FunctionParameter
  | .query => []
  | .add => i.properties.map fun p => ⟨p.name, p.sqlType, p.default⟩
  | .update =>
      idParameter :: i.properties.flatMap fun p =>
        [⟨p.name ++ "$Changed", "bit", none⟩, ⟨p.name, p.sqlType, none⟩]
  | .delete => [idParameter]

/-- What the security function of a right on items checks. -/
def itemRightPurpose (i : ItemType) : ItemRight → String
  | .query =>
      "Create the function that checks query rights on the default view of " ++ i.name
  | .add => "Create the function that checks add rights on " ++ i.name
  | .update => "Create the function that checks update rights on " ++ i.name
  | .delete => "Create the function that checks delete rights on " ++ i.name

/-- The security function of a right on items, if it exists. -/
def itemRightFunction (i : ItemType) (right : ItemRight) : List Described :=
  (i.securityFunction? right).toList.map fun name =>
    ⟨itemRightPurpose i right,
      ⟨name, itemRightParameters i right, .granted (i.expressions right)⟩⟩

/-- Parameters of views and rights are null when they are left out. -/
def nullableParameters (parameters : List Parameter) : List FunctionParameter :=
  parameters.map fun p => ⟨p.name, p.sqlType, some .null⟩

def viewFunction (v : View) : Described :=
  ⟨"Create the " ++ v.name ++ " view",
    ⟨v.name, nullableParameters v.parameters, .query v.implementation⟩⟩

def viewSecurityFunction (v : View) : List Described :=
  v.securityFunction?.toList.map fun name =>
    ⟨"Create the function that checks query rights on " ++ v.name,
      ⟨name, nullableParameters v.parameters, .granted v.expressions⟩⟩

def rightSecurityFunction (r : Right) : List Described :=
  r.securityFunction?.toList.map fun name =>
    ⟨"Create the function that checks the " ++ r.name ++ " right",
      ⟨name, nullableParameters r.parameters, .granted r.expressions⟩⟩

def defaultViewFunction (i : ItemType) : Described :=
  ⟨"Create the default view of " ++ i.name,
    ⟨i.defaultViewFunction, [], .everyRow (i.properties.map fun p => p.name) i.name⟩⟩

/-- The functions of a schema in the order of their creation.  The default views
are created once and never replaced. -/
def functions (s : Schema) (withDefaultViews : Bool) : List Described :=
  s.itemTypes.flatMap (fun i =>
    itemRightFunction i .delete ++ itemRightFunction i .update ++ itemRightFunction i .add) ++
  s.views.flatMap (fun v => viewFunction v :: viewSecurityFunction v) ++
  s.rights.flatMap rightSecurityFunction ++
  s.itemTypes.flatMap fun i =>
    (if withDefaultViews then [defaultViewFunction i] else []) ++ itemRightFunction i .query

end LearningStore.Script
