import LearningStore.Schema.Basic
import LearningStore.Text.Layout
import LearningStore.Xml.Markup

/-!
# The stored schema document

A store keeps a document that names its tables, views and rights, and the security
functions that guard them.  Each element of the schema is one record in it: a tag
with a list of empty tags inside.  In a script a record is a chain of string
literals, one per tag.
-/

namespace LearningStore.Script

open LearningStore.Schema
open LearningStore.Text
open LearningStore.Value
open LearningStore.Xml

/-- One element of the stored document. -/
structure Record where
  markup : Markup
  members : List Markup
deriving DecidableEq, Repr

namespace Record

/-- The tags of a record, each with its depth, as they follow each other. -/
def tags (r : Record) : List Line :=
  line r.markup.start :: indented (r.members.map fun m => line m.empty) ++
    [line r.markup.stop]

/-- The string literals of a record, with a plus sign after all but the last. -/
def lines (r : Record) : List Line :=
  line (sqlString r.markup.start ++ " +") ::
    indented (r.members.map fun m => line (sqlString m.empty ++ " +")) ++
    [line (sqlString r.markup.stop)]

end Record

/-- The attribute under which an item type records the security function of a
right. -/
def securityAttribute : ItemRight → String
  | .query => "ViewSecurityFunction"
  | .add => "AddSecurityFunction"
  | .delete => "DeleteSecurityFunction"
  | .update => "UpdateSecurityFunction"

/-- The rights in the order in which their functions are recorded. -/
def recordedRights : List ItemRight := [.query, .add, .delete, .update]

/-- The attributes for the security functions that an item type has. -/
def securityAttributes (i : ItemType) : List (String × String) :=
  recordedRights.filterMap fun right =>
    (i.securityFunction? right).map fun function => (securityAttribute right, function)

/-- The attribute for what the type of a member refers to, if it refers to
something. -/
def referenceAttribute (s : Schema) (m : Member) :
    Except LookupError (List (String × String)) :=
  match m.valueType with
  | .itemIdentifier =>
      (s.referencedItemType m).map fun i => [("ReferencedItemTypeName", i.name)]
  | .enumeration => (s.referencedEnum m).map fun e => [("EnumName", e.name)]
  | _ => .ok []

def typeCodeAttribute (m : Member) : String × String :=
  ("TypeCode", integerText m.valueType.typeCode)

def propertyMarkup (s : Schema) (p : Property) : Except LookupError Markup :=
  (referenceAttribute s p.toMember).map fun reference =>
    ⟨"Property",
      [("Name", p.name), typeCodeAttribute p.toMember,
        ("Nullable", booleanText p.nullable),
        ("HasDefault", booleanText p.default.isSome)] ++ reference⟩

/-- Columns and parameters may always be null. -/
def nullableMarkup (s : Schema) (element : String) (m : Member) :
    Except LookupError Markup :=
  (referenceAttribute s m).map fun reference =>
    ⟨element, [("Name", m.name), typeCodeAttribute m, ("Nullable", "true")] ++ reference⟩

def itemTypeRecord (s : Schema) (i : ItemType) : Except LookupError Record :=
  (i.properties.mapM (propertyMarkup s)).map fun members =>
    ⟨⟨"ItemType", [("Name", i.name), ("ViewFunction", i.defaultViewFunction)] ++
      securityAttributes i⟩, members⟩

def enumRecord (e : EnumType) : Record :=
  ⟨⟨"Enum", [("Name", e.name)]⟩,
    e.values.map fun v => ⟨"Value", [("Name", v.name), ("Value", integerText v.value)]⟩⟩

/-- The attribute for the security function of a view or a right, if it has one. -/
def guardAttribute (function : Option String) : List (String × String) :=
  function.toList.map fun name => ("SecurityFunction", name)

def parameterMarkups (s : Schema) (parameters : List Parameter) :
    Except LookupError (List Markup) :=
  parameters.mapM fun p => nullableMarkup s "Parameter" p.toMember

def viewRecord (s : Schema) (v : View) : Except LookupError Record := do
  let columns ← v.columns.mapM fun c => nullableMarkup s "Column" c.toMember
  let parameters ← parameterMarkups s v.parameters
  pure ⟨⟨"View", [("Name", v.name), ("Function", v.name)] ++
    guardAttribute v.securityFunction?⟩, columns ++ parameters⟩

def rightRecord (s : Schema) (r : Right) : Except LookupError Record :=
  (parameterMarkups s r.parameters).map fun parameters =>
    ⟨⟨"Right", [("Name", r.name)] ++ guardAttribute r.securityFunction?⟩, parameters⟩

/-- The records of a schema: item types, enums, views, rights. -/
def records (s : Schema) : Except LookupError (List Record) := do
  let itemTypes ← s.itemTypes.mapM (itemTypeRecord s)
  let views ← s.views.mapM (viewRecord s)
  let rights ← s.rights.mapM (rightRecord s)
  pure (itemTypes ++ s.enums.map enumRecord ++ views ++ rights)

/-- The statements that put a document together in a variable. -/
def documentLines (rs : List Record) : List Line :=
  [line "DECLARE @schema varchar(max)",
    line ("SET @schema = " ++ sqlString "<StoreSchema>")] ++
  rs.flatMap (fun r => line "SET @schema = @schema +" :: indented r.lines) ++
  [line ("SET @schema = @schema + " ++ sqlString "</StoreSchema>")]

end LearningStore.Script
