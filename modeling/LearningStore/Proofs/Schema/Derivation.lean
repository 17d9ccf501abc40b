import LearningStore.Proofs.Schema.Marking
import LearningStore.Proofs.Schema.Registry
import LearningStore.Schema.Basic

/-!
# Schemas on top of a base

Files of a derived schema may extend what the base schema declares, but all they add is
members of their own and documentation: the part that is marked as the base stays the same,
with the names, the types and the lengths of its members.
-/

namespace LearningStore.Schema

open LearningStore.Value

/-! ## The base part of a schema -/

/-- A member of the base schema in the element that owns it, without its documentation. -/
@[ext]
structure BaseMember where
  owner : String
  name : String
  valueType : ValueType
  length : Option Int
deriving DecidableEq, Repr

/-- What is known of a member if it comes from the base schema. -/
def Member.base? (owner : String) (length : Option Int) (m : Member) : Option BaseMember :=
  if m.inBase then some ⟨owner, m.name, m.valueType, length⟩ else none

def ItemType.baseMembers (i : ItemType) : List BaseMember :=
  i.properties.filterMap fun p => p.toMember.base? i.name p.length

def View.baseColumns (v : View) : List BaseMember :=
  v.columns.filterMap fun c => c.toMember.base? v.name none

def View.baseParameters (v : View) : List BaseMember :=
  v.parameters.filterMap fun p => p.toMember.base? v.name none

def Right.baseParameters (r : Right) : List BaseMember :=
  r.parameters.filterMap fun p => p.toMember.base? r.name none

/-- The name of an element if it comes from the base schema. -/
def baseName? (inBase : Bool) (name : String) : Option String :=
  if inBase then some name else none

/-- All that comes from the base schema.  Enums are not extended, so they are kept whole. -/
structure BasePart where
  enums : List EnumType
  itemTypes : List String
  properties : List BaseMember
  views : List String
  columns : List BaseMember
  viewParameters : List BaseMember
  rights : List String
  rightParameters : List BaseMember
deriving DecidableEq, Repr

/-- The part of a schema that comes from the base schema.  A member of the base schema
counts wherever it stands. -/
def basePart (s : Schema) : BasePart where
  enums := s.enums.filter EnumType.inBase
  itemTypes := s.itemTypes.filterMap fun i => baseName? i.inBase i.name
  properties := s.itemTypes.flatMap ItemType.baseMembers
  views := s.views.filterMap fun v => baseName? v.inBase v.name
  columns := s.views.flatMap View.baseColumns
  viewParameters := s.views.flatMap View.baseParameters
  rights := s.rights.filterMap fun r => baseName? r.inBase r.name
  rightParameters := s.rights.flatMap Right.baseParameters

/-! ### What the base part holds -/

section Membership

variable {s : Schema}

theorem mem_base_enums {e : EnumType} :
    e ∈ s.basePart.enums ↔ e ∈ s.enums ∧ e.inBase = true :=
  List.mem_filter

end Membership

/-! ## Extensions keep the base part -/

theorem Member.base?_eq_none (owner : String) (length : Option Int) {m : Member}
    (own : m.inBase = false) : m.base? owner length = none := by
  simp [base?, own]

theorem ItemType.Marked.baseMembers {i : ItemType} (h : i.Marked false) :
    i.baseMembers = [] :=
  List.filterMap_eq_nil_iff.mpr fun p inside => Member.base?_eq_none _ _ (h.properties p inside)

theorem View.Marked.baseColumns {v : View} (h : v.Marked false) : v.baseColumns = [] :=
  List.filterMap_eq_nil_iff.mpr fun c inside => Member.base?_eq_none _ _ (h.columns c inside)

theorem View.Marked.baseParameters {v : View} (h : v.Marked false) : v.baseParameters = [] :=
  List.filterMap_eq_nil_iff.mpr fun p inside => Member.base?_eq_none _ _ (h.parameters p inside)

theorem Right.Marked.baseParameters {r : Right} (h : r.Marked false) : r.baseParameters = [] :=
  List.filterMap_eq_nil_iff.mpr fun p inside => Member.base?_eq_none _ _ (h.parameters p inside)

section UpdateFirst

variable {α β : Type} {p : α → Bool} {f : α → α}

end UpdateFirst

namespace ItemType

/-- The same item type as far as the base schema is concerned. -/
structure KeepsBase (i j : ItemType) : Prop where
  name : j.name = i.name
  inBase : j.inBase = i.inBase
  members : j.baseMembers = i.baseMembers

theorem KeepsBase.trans {i j k : ItemType} (first : i.KeepsBase j) (second : j.KeepsBase k) :
    i.KeepsBase k :=
  ⟨second.name.trans first.name, second.inBase.trans first.inBase,
    second.members.trans first.members⟩

end ItemType

namespace Right

/-- The same right as far as the base schema is concerned. -/
structure KeepsBase (r q : Right) : Prop where
  name : q.name = r.name
  inBase : q.inBase = r.inBase
  parameters : q.baseParameters = r.baseParameters

theorem KeepsBase.trans {r q t : Right} (first : r.KeepsBase q) (second : q.KeepsBase t) :
    r.KeepsBase t :=
  ⟨second.name.trans first.name, second.inBase.trans first.inBase,
    second.parameters.trans first.parameters⟩

end Right

/-! ## Derived files keep the base part -/

namespace Drafts

variable {d : Drafts}

end Drafts

/-! ## Members of the base schema

With the same base part, whatever comes from the base schema in one schema is in the other. -/

section Origin

variable {s base : Schema} (same : s.basePart = base.basePart)

include same

theorem mem_base_of_enum {e : EnumType} (member : e ∈ s.enums) (marked : e.inBase = true) :
    e ∈ base.enums := by
  have known : e ∈ s.basePart.enums := mem_base_enums.mpr ⟨member, marked⟩
  rw [same] at known
  exact (mem_base_enums.mp known).1

end Origin

end LearningStore.Schema
