import LearningStore.Schema.Reading.Member

/-!
# Reading schema files

Enums, item types, views, rights and the extensions of the last three.
`SchemaFile.read` gives the declarations of a file, or every structural problem
in it.
-/

namespace LearningStore.Schema

open LearningStore.Text
open LearningStore.Value
open LearningStore.Xml

namespace Source

/-- The values of an enum after those in `before`.  A value without a number, and
one whose name is taken, is reported and left out. -/
def enumValues (s : Source) (enum : String) (before : List EnumValue) :
    List Element → Checked (List EnumValue)
  | [] => pure before
  | e :: rest => do
      s.check e .value
      let name ← s.name e
      match ← s.integer e "Value" with
      | none => enumValues s enum before rest
      | some value =>
          if before.any fun v => v.name == name then
            .report [s.problem e (.valueRepeated enum name)]
            enumValues s enum before rest
          else
            let documentation := (e.first? "Documentation").map s.document.inner
            enumValues s enum (before ++ [⟨name, value, documentation⟩]) rest

/-- What stands in the element of values, if there is one. -/
def values (s : Source) (enum : String) (e : Element) : Checked (List EnumValue) := do
  match e.first? "Values" with
  | none => pure []
  | some v =>
      s.check v .values
      s.enumValues enum [] (v.named "Value")

def enumType (s : Source) (e : Element) : Checked (Declared EnumType) := do
  s.check e .enum
  let name ← s.name e
  let documentation ← s.documentation e
  let values ← s.values name e
  pure ⟨⟨name, values, documentation, s.inBase⟩, s.location e⟩

/-- The grant expressions of one right of an item type. -/
def itemExpressions (s : Source) (e : Element) (right : ItemRight) (grant : String) :
    Checked (List (ItemRight × String)) := do
  let expressions ← s.expressions e grant
  pure (expressions.map fun x => (right, x))

/-- The elements that hold the grant expressions of the rights on items. -/
def itemGrants : List (ItemRight × String) :=
  [(.query, "GrantQueryRight"), (.add, "GrantAddRight"), (.update, "GrantUpdateRight"),
    (.delete, "GrantDeleteRight")]

/-- The index statements of an item type. -/
def indexes (s : Source) (e : Element) : Checked (List String) := do
  match e.first? "Indexes" with
  | none => pure []
  | some i =>
      s.check i .indexes
      s.statements i .index

/-- What stands in an item type or in an extension of one. -/
def itemTypeBody (s : Source) (name : String) (extending : Bool) (e : Element) :
    Checked ItemTypeBody := do
  let documentation ← s.documentation e
  let expressions ← Checked.each (fun g => s.itemExpressions e g.1 g.2) itemGrants
  let (properties, extensions) ← s.properties name extending e
  let indexes ← s.indexes e
  let sqlAfter ← s.statements e .sqlAfter
  pure ⟨documentation, expressions.flatten, properties, extensions, indexes, sqlAfter⟩

def itemType (s : Source) (e : Element) : Checked (Declared ItemType) := do
  s.check e .itemType
  let name ← s.name e
  let body ← s.itemTypeBody name false e
  let item : ItemType :=
    { name
      properties := body.properties.map Declared.item
      queryExpressions := body.expressionsOf .query
      addExpressions := body.expressionsOf .add
      updateExpressions := body.expressionsOf .update
      deleteExpressions := body.expressionsOf .delete
      indexes := body.indexes
      sqlAfter := body.sqlAfter
      documentation := body.documentation
      inBase := s.inBase }
  pure ⟨item, s.location e⟩

def itemTypeExtension (s : Source) (e : Element) : Checked ItemTypeExtension := do
  s.check e .extendItemType
  let name ← s.name e
  let replaceIndexes := (← s.boolean e "ReplaceIndexes").getD false
  let body ← s.itemTypeBody name true e
  pure ⟨name, s.location e, replaceIndexes, body⟩

/-- The body of the function behind a view, without which there is no view. -/
def implementation (s : Source) (name : String) (e : Element) : Checked String := do
  match e.first? "Implementation" with
  | some i => pure ((← s.statement i .implementation).getD "")
  | none =>
      .report [s.problem e (.implementationMissing name)]
      pure ""

/-- The columns of a view. -/
def columns (s : Source) (view : String) (e : Element) : Checked (List Column) := do
  match e.first? "Columns" with
  | none => pure []
  | some c =>
      s.check c .columns
      .eachSome (s.column view) (c.named "Column")

def view (s : Source) (e : Element) : Checked (Declared View) := do
  s.check e .view
  let name ← s.name e
  let columns ← s.columns name e
  let (parameters, _) ← s.parameters (.view name) false e
  let implementation ← s.implementation name e
  let expressions ← s.expressions e "GrantQueryRight"
  let documentation ← s.documentation e
  pure ⟨⟨name, columns, parameters.map Declared.item, implementation, expressions,
    documentation, s.inBase⟩, s.location e⟩

def viewExtension (s : Source) (e : Element) : Checked ViewExtension := do
  s.check e .extendView
  let name ← s.name e
  let documentation ← s.documentation e
  let expressions ← s.expressions e "GrantQueryRight"
  pure ⟨name, s.location e, documentation, expressions⟩

def right (s : Source) (e : Element) : Checked (Declared Right) := do
  s.check e .right
  let name ← s.name e
  let (parameters, _) ← s.parameters (.right name) false e
  let expressions ← s.expressions e "Grant"
  let documentation ← s.documentation e
  pure ⟨⟨name, parameters.map Declared.item, expressions, documentation, s.inBase⟩,
    s.location e⟩

def rightExtension (s : Source) (e : Element) : Checked RightExtension := do
  s.check e .extendRight
  let name ← s.name e
  let (parameters, extensions) ← s.parameters (.right name) true e
  let documentation ← s.documentation e
  let expressions ← s.expressions e "Grant"
  pure ⟨name, s.location e, documentation, expressions, parameters, extensions⟩

/-- Add the declaration that a child of the root element makes. -/
def declaration (s : Source) (file : SchemaFile) (e : Element) : Checked SchemaFile := do
  match e.name with
  | "Enum" => pure { file with enums := file.enums ++ [← s.enumType e] }
  | "ItemType" => pure { file with itemTypes := file.itemTypes ++ [← s.itemType e] }
  | "View" => pure { file with views := file.views ++ [← s.view e] }
  | "Right" => pure { file with rights := file.rights ++ [← s.right e] }
  | "ExtendItemType" =>
      pure { file with
        itemTypeExtensions := file.itemTypeExtensions ++ [← s.itemTypeExtension e] }
  | "ExtendView" =>
      pure { file with viewExtensions := file.viewExtensions ++ [← s.viewExtension e] }
  | "ExtendRight" =>
      pure { file with rightExtensions := file.rightExtensions ++ [← s.rightExtension e] }
  | "SqlBefore" =>
      pure { file with sqlBefore := file.sqlBefore ++ (← s.statement e .sqlBefore).toList }
  | "SqlAfter" =>
      pure { file with sqlAfter := file.sqlAfter ++ (← s.statement e .sqlAfter).toList }
  | _ => pure file

/-- Add the declarations of elements, in order. -/
def declarations (s : Source) (file : SchemaFile) : List Element → Checked SchemaFile
  | [] => pure file
  | e :: rest => do
      let file ← s.declaration file e
      declarations s file rest

/-- The declarations of a document.  Nothing is read below a wrong root. -/
def file (s : Source) : Checked SchemaFile := do
  let root := s.document.root
  let nothing := SchemaFile.empty s.fileName
  if root.tag.name = ⟨some schemaNamespace, ElementRule.storeSchema.name⟩ then
    s.check root .storeSchema
    s.declarations nothing root.elements
  else
    .report [s.problem root .wrongRoot]
    pure nothing

end Source

namespace SchemaFile

/-- The declarations of a schema file, or all its structural problems. -/
def read (text fileName : String) (inBase : Bool) : Except Problems SchemaFile :=
  match Document.parse text with
  | .error e =>
      let location : Location := ⟨fileName, e.position.line, e.position.column⟩
      .error (.single ⟨some location, .malformed e⟩)
  | .ok document => (Source.file ⟨fileName, inBase, document⟩).toExcept

end SchemaFile

end LearningStore.Schema
