import LearningStore.Schema.Subject
import LearningStore.Value.Literal

/-!
# Elements of a schema

Enums, item types with their properties, views with their columns and parameters,
and rights with their parameters.  A property, a column and a parameter have in
common that they hold a value of some type, which may refer to an enum or to an
item type by name.
-/

namespace LearningStore.Schema

open LearningStore.Value

/-- Free-form documentation markup of an element. -/
structure Documentation where
  summary : Option String := none
  remarks : Option String := none
deriving DecidableEq, Repr

namespace Documentation

/-- Two texts in a row; a missing one adds nothing. -/
def joinText : Option String → Option String → Option String
  | a, none => a
  | none, some b => some b
  | some a, some b => some (a ++ b)

/-- The documentation followed by that of an extension. -/
def append (d extra : Documentation) : Documentation :=
  ⟨joinText d.summary extra.summary, joinText d.remarks extra.remarks⟩

end Documentation

/-- A named value of an enum. -/
structure EnumValue where
  name : String
  value : Int
  documentation : Option String
deriving DecidableEq, Repr

structure EnumType where
  name : String
  values : List EnumValue
  documentation : Documentation
  inBase : Bool
deriving DecidableEq, Repr

namespace EnumType

/-- The value with a name. -/
def value? (e : EnumType) (name : String) : Option EnumValue :=
  e.values.find? fun v => v.name == name

/-- The name of the first value with a number. -/
def nameOf? (e : EnumType) (value : Int) : Option String :=
  (e.values.find? fun v => v.value == value).map EnumValue.name

end EnumType

/-- What a property, a column and a parameter have in common. -/
structure Member where
  name : String
  valueType : ValueType
  itemTypeName : Option String
  enumName : Option String
  documentation : Documentation
  inBase : Bool
deriving DecidableEq, Repr

/-- A property of an item type: a column of its table. -/
structure Property extends Member where
  owner : String
  nullable : Bool
  length : Option Int
  cascadeDelete : Bool
  rowGuid : Bool
  default : Option DefaultValue
  constraints : List String
deriving DecidableEq, Repr

namespace Property

def subject (p : Property) : Subject :=
  .property p.owner p.name

/-- The declared length, or the limit of the type. -/
def maxLength (p : Property) : Option Int :=
  p.valueType.maxLength p.length

def sqlType (p : Property) : String :=
  p.valueType.sqlType p.length

/-- The name of the constant that holds the maximum length. -/
def maxLengthConstant (p : Property) : String :=
  "Max" ++ p.name ++ "Length"

/-- The property with documentation added at the end. -/
def extended (p : Property) (extra : Documentation) : Property :=
  { p with documentation := p.documentation.append extra }

end Property

/-- A column that a view returns. -/
structure Column extends Member where
  owner : String
deriving DecidableEq, Repr

namespace Column

def subject (c : Column) : Subject :=
  .column c.owner c.name

end Column

/-- A parameter of a view or of a right. -/
structure Parameter extends Member where
  owner : Owner
deriving DecidableEq, Repr

namespace Parameter

def subject (p : Parameter) : Subject :=
  .parameter p.owner p.name

/-- Parameters declare no length. -/
def sqlType (p : Parameter) : String :=
  p.valueType.sqlType none

/-- The parameter with documentation added at the end. -/
def extended (p : Parameter) (extra : Documentation) : Parameter :=
  { p with documentation := p.documentation.append extra }

end Parameter

/-- What can be done with an item, each with grant expressions of its own. -/
inductive ItemRight where
  | query
  | add
  | update
  | delete
deriving DecidableEq, Repr

namespace ItemRight

def all : List ItemRight := [query, add, update, delete]

/-- What the name of a security function for the right ends in. -/
def functionSuffix : ItemRight → String
  | query => "$DefaultViewSecurity"
  | add => "$AddSecurity"
  | update => "$UpdateSecurity"
  | delete => "$DeleteSecurity"

end ItemRight

structure ItemType where
  name : String
  properties : List Property
  queryExpressions : List String
  addExpressions : List String
  updateExpressions : List String
  deleteExpressions : List String
  indexes : List String
  sqlAfter : List String
  documentation : Documentation
  inBase : Bool
deriving DecidableEq, Repr

namespace ItemType

def property? (i : ItemType) (name : String) : Option Property :=
  i.properties.find? fun p => p.name == name

/-- The grant expressions of a right. -/
def expressions (i : ItemType) : ItemRight → List String
  | .query => i.queryExpressions
  | .add => i.addExpressions
  | .update => i.updateExpressions
  | .delete => i.deleteExpressions

/-- The item type with more grant expressions of a right. -/
def grant (i : ItemType) (right : ItemRight) (more : List String) : ItemType :=
  match right with
  | .query => { i with queryExpressions := i.queryExpressions ++ more }
  | .add => { i with addExpressions := i.addExpressions ++ more }
  | .update => { i with updateExpressions := i.updateExpressions ++ more }
  | .delete => { i with deleteExpressions := i.deleteExpressions ++ more }

/-- The function that returns every item of the type. -/
def defaultViewFunction (i : ItemType) : String :=
  i.name ++ "$DefaultView"

/-- The security function of a right, which exists if something grants it. -/
def securityFunction? (i : ItemType) (right : ItemRight) : Option String :=
  if (i.expressions right).isEmpty then none else some (i.name ++ right.functionSuffix)

end ItemType

structure View where
  name : String
  columns : List Column
  parameters : List Parameter
  implementation : String
  expressions : List String
  documentation : Documentation
  inBase : Bool
deriving DecidableEq, Repr

namespace View

/-- The security function of a view, which exists if something grants the view. -/
def securityFunction? (v : View) : Option String :=
  if v.expressions.isEmpty then none else some (v.name ++ "$Security")

end View

structure Right where
  name : String
  parameters : List Parameter
  expressions : List String
  documentation : Documentation
  inBase : Bool
deriving DecidableEq, Repr

namespace Right

def parameter? (r : Right) (name : String) : Option Parameter :=
  r.parameters.find? fun p => p.name == name

/-- The security function of a right has its name. -/
def securityFunction? (r : Right) : Option String :=
  if r.expressions.isEmpty then none else some r.name

end Right

end LearningStore.Schema
