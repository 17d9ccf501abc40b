import LearningStore.Schema.Drafts

/-!
# Schemas

A schema is what drafts become once every reference in them is resolved: the item
type and the enum that a member refers to exist, and an enum default is a value of
its enum.  Elements keep the order in which they were declared.
-/

namespace LearningStore

open LearningStore.Value

structure Schema where
  enums : List Schema.EnumType
  itemTypes : List Schema.ItemType
  views : List Schema.View
  rights : List Schema.Right
  sqlBefore : List String
  sqlAfter : List String
deriving DecidableEq, Repr

namespace Schema

/-- A reference that leads nowhere, which a finished schema does not have. -/
inductive LookupError where
  | itemType
  | enum
deriving DecidableEq, Repr

namespace LookupError

/-- The code under which the fault is reported. -/
def code : LookupError → String
  | itemType => "SCMP3010"
  | enum => "SCMP3020"

def message (e : LookupError) : String :=
  "Internal error " ++ e.code

end LookupError

def enum? (s : Schema) (name : String) : Option EnumType :=
  s.enums.find? fun e => e.name == name

def itemType? (s : Schema) (name : String) : Option ItemType :=
  s.itemTypes.find? fun i => i.name == name

def view? (s : Schema) (name : String) : Option View :=
  s.views.find? fun v => v.name == name

def right? (s : Schema) (name : String) : Option Right :=
  s.rights.find? fun r => r.name == name

/-- The item type that a member refers to. -/
def referencedItemType (s : Schema) (m : Member) : Except LookupError ItemType :=
  match m.itemTypeName.bind s.itemType? with
  | some i => .ok i
  | none => .error .itemType

/-- The enum that a member refers to. -/
def referencedEnum (s : Schema) (m : Member) : Except LookupError EnumType :=
  match m.enumName.bind s.enum? with
  | some e => .ok e
  | none => .error .enum

namespace Drafts

/-- The references of a member that lead nowhere. -/
def unresolved (d : Drafts) (subject : Subject) (m : Member) : List Problem :=
  let itemTypes := m.itemTypeName.toList.filter fun name =>
    !d.itemTypes.any fun i => i.name == name
  let enums := m.enumName.toList.filter fun name => !d.enums.any fun e => e.name == name
  itemTypes.map (fun name => ⟨none, .unknownItemType subject name⟩) ++
    enums.map fun name => ⟨none, .unknownEnum subject name⟩

/-- An enum default that is no value of the enum of its property. -/
def strayDefault (d : Drafts) (p : Property) : List Problem :=
  match p.default, p.enumName with
  | some (.literal (.enumeration value)), some name =>
      match d.enums.find? fun e => e.name == name with
      | some e =>
          if (e.nameOf? value).isNone then
            [⟨none, .unknownEnumValue value p.subject e.name⟩]
          else []
      | none => []
  | _, _ => []

def propertyProblems (d : Drafts) (p : Property) : List Problem :=
  d.unresolved p.subject p.toMember ++ d.strayDefault p

def columnProblems (d : Drafts) (c : Column) : List Problem :=
  d.unresolved c.subject c.toMember

def parameterProblems (d : Drafts) (p : Parameter) : List Problem :=
  d.unresolved p.subject p.toMember

/-- Everything that keeps drafts from being a schema. -/
def problems (d : Drafts) : List Problem :=
  (d.itemTypes.flatMap fun i => i.properties.flatMap d.propertyProblems) ++
    (d.views.flatMap fun v =>
      v.columns.flatMap d.columnProblems ++ v.parameters.flatMap d.parameterProblems) ++
    d.rights.flatMap fun r => r.parameters.flatMap d.parameterProblems

/-- The elements of drafts as a schema. -/
def toSchema (d : Drafts) : Schema :=
  ⟨d.enums, d.itemTypes, d.views, d.rights, d.sqlBefore, d.sqlAfter⟩

/-- The schema that drafts make, or all the problems that keep them from it. -/
def finish (d : Drafts) : Except Problems Schema :=
  match Problems.ofList? d.problems with
  | some problems => .error problems
  | none => .ok d.toSchema

end Drafts

end Schema

end LearningStore
