import LearningStore.Schema.Reading.File
import LearningStore.Text.Letters

/-!
# Drafts of a schema

Drafts take the declarations of one file after the other.  First the new elements
of a file are entered, then its extensions are merged, so that a file may extend
what it declares itself.  The names of all elements share one registry without
regard to case.  A problem leaves out what it concerns and disturbs nothing else.
-/

namespace LearningStore.Schema

open LearningStore.Text

/-- The elements declared so far and the registry of their names. -/
structure Drafts where
  enums : List EnumType := []
  itemTypes : List ItemType := []
  views : List View := []
  rights : List Right := []
  sqlBefore : List String := []
  sqlAfter : List String := []
  names : List (String × Location) := []
deriving DecidableEq, Repr

namespace Checked

/-- Go through a list with a value that every step replaces. -/
def through {α β : Type} (f : β → α → Checked β) (b : β) : List α → Checked β
  | [] => pure b
  | a :: rest => bind (f b a) fun b => through f b rest

end Checked

/-- Replace the first member of a list that satisfies a condition. -/
def updateFirst {α : Type} (p : α → Bool) (f : α → α) : List α → List α
  | [] => []
  | a :: rest => if p a then f a :: rest else a :: updateFirst p f rest

/-! ## Merging one extension -/

namespace ItemType

/-- Add a property of an extension, unless its name is taken. -/
def addProperty (i : ItemType) (declared : Declared Property) : Checked ItemType :=
  if (i.property? declared.item.name).isSome then
    ⟨i, [⟨some declared.location, .propertyTaken i.name declared.item.name⟩]⟩
  else .pure { i with properties := i.properties ++ [declared.item] }

/-- Add documentation to a property, if there is one of that name. -/
def extendProperty (i : ItemType) (m : MemberExtension) : Checked ItemType :=
  if (i.property? m.name).isSome then
    .pure { i with
      properties := updateFirst (fun p => p.name == m.name)
        (fun p => p.extended m.documentation) i.properties }
  else ⟨i, [⟨some m.location, .noPropertyToExtend i.name m.name⟩]⟩

/-- Add grant expressions of several rights, in order. -/
def grantAll (i : ItemType) (expressions : List (ItemRight × String)) : ItemType :=
  expressions.foldl (fun i e => i.grant e.1 [e.2]) i

/-- Merge an extension of the item type. -/
def extend (i : ItemType) (x : ItemTypeExtension) : Checked ItemType := do
  let i := { i with documentation := i.documentation.append x.body.documentation }
  let i := i.grantAll x.body.expressions
  let i ← Checked.through addProperty i x.body.properties
  let i ← Checked.through extendProperty i x.body.propertyExtensions
  let kept := if x.replaceIndexes then [] else i.indexes
  pure { i with
    indexes := kept ++ x.body.indexes
    sqlAfter := i.sqlAfter ++ x.body.sqlAfter }

end ItemType

namespace View

/-- Merge an extension of the view. -/
def extend (v : View) (x : ViewExtension) : View :=
  { v with
    documentation := v.documentation.append x.documentation
    expressions := v.expressions ++ x.expressions }

end View

namespace Right

/-- Add a parameter of an extension, unless its name is taken. -/
def addParameter (r : Right) (declared : Declared Parameter) : Checked Right :=
  if (r.parameter? declared.item.name).isSome then
    ⟨r, [⟨some declared.location, .parameterTaken r.name declared.item.name⟩]⟩
  else .pure { r with parameters := r.parameters ++ [declared.item] }

/-- Add documentation to a parameter, if there is one of that name. -/
def extendParameter (r : Right) (m : MemberExtension) : Checked Right :=
  if (r.parameter? m.name).isSome then
    .pure { r with
      parameters := updateFirst (fun p => p.name == m.name)
        (fun p => p.extended m.documentation) r.parameters }
  else ⟨r, [⟨some m.location, .noParameterToExtend m.name r.name⟩]⟩

/-- Merge an extension of the right. -/
def extend (r : Right) (x : RightExtension) : Checked Right := do
  let r := { r with
    documentation := r.documentation.append x.documentation
    expressions := r.expressions ++ x.expressions }
  let r ← Checked.through addParameter r x.parameters
  Checked.through extendParameter r x.parameterExtensions

end Right

/-! ## Applying a file -/

namespace Drafts

/-- Where a name is used already, without regard to case. -/
def user? (d : Drafts) (name : String) : Option Location :=
  (d.names.find? fun entry => entry.1 == lowered name).map Prod.snd

/-- Enter a name, with what is declared under it, unless the name is taken. -/
def register (d : Drafts) (name : String) (location : Location) (add : Drafts → Drafts) :
    Checked Drafts :=
  match d.user? name with
  | some previous => ⟨d, [⟨some location, .nameTaken name previous⟩]⟩
  | none => .pure (add { d with names := d.names ++ [(lowered name, location)] })

def addEnum (d : Drafts) (x : Declared EnumType) : Checked Drafts :=
  d.register x.item.name x.location fun d => { d with enums := d.enums ++ [x.item] }

def addItemType (d : Drafts) (x : Declared ItemType) : Checked Drafts :=
  d.register x.item.name x.location fun d => { d with itemTypes := d.itemTypes ++ [x.item] }

def addView (d : Drafts) (x : Declared View) : Checked Drafts :=
  d.register x.item.name x.location fun d => { d with views := d.views ++ [x.item] }

def addRight (d : Drafts) (x : Declared Right) : Checked Drafts :=
  d.register x.item.name x.location fun d => { d with rights := d.rights ++ [x.item] }

/-- Merge an extension into the item type it names. -/
def extendItemType (d : Drafts) (x : ItemTypeExtension) : Checked Drafts :=
  match d.itemTypes.find? fun i => i.name == x.name with
  | none => ⟨d, [⟨some x.location, .noItemTypeToExtend x.name⟩]⟩
  | some i =>
      let merged := i.extend x
      ⟨{ d with
        itemTypes := updateFirst (fun i => i.name == x.name) (fun _ => merged.value)
          d.itemTypes }, merged.problems⟩

/-- Merge an extension into the view it names. -/
def extendView (d : Drafts) (x : ViewExtension) : Checked Drafts :=
  if d.views.any fun v => v.name == x.name then
    .pure { d with
      views := updateFirst (fun v => v.name == x.name) (fun v => v.extend x) d.views }
  else ⟨d, [⟨some x.location, .noViewToExtend x.name⟩]⟩

/-- Merge an extension into the right it names. -/
def extendRight (d : Drafts) (x : RightExtension) : Checked Drafts :=
  match d.rights.find? fun r => r.name == x.name with
  | none => ⟨d, [⟨some x.location, .noRightToExtend x.name⟩]⟩
  | some r =>
      let merged := r.extend x
      ⟨{ d with
        rights := updateFirst (fun r => r.name == x.name) (fun _ => merged.value) d.rights },
        merged.problems⟩

/-- Apply the declarations of a file. -/
def apply (d : Drafts) (file : SchemaFile) : Checked Drafts := do
  let d ← Checked.through addEnum d file.enums
  let d ← Checked.through addItemType d file.itemTypes
  let d ← Checked.through addView d file.views
  let d ← Checked.through addRight d file.rights
  let d ← Checked.through extendItemType d file.itemTypeExtensions
  let d ← Checked.through extendView d file.viewExtensions
  let d ← Checked.through extendRight d file.rightExtensions
  pure { d with
    sqlBefore := d.sqlBefore ++ file.sqlBefore
    sqlAfter := d.sqlAfter ++ file.sqlAfter }

/-- Apply the text of a file.  A file with structural problems changes nothing. -/
def applyText (d : Drafts) (text fileName : String) (inBase : Bool) : Checked Drafts :=
  match SchemaFile.read text fileName inBase with
  | .error problems => ⟨d, problems.toList⟩
  | .ok file => d.apply file

end Drafts

end LearningStore.Schema
