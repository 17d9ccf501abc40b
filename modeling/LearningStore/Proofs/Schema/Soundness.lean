import LearningStore.Proofs.Schema.Identifier
import LearningStore.Schema.Declaration

/-!
# Sound elements

What holds of one element of a schema by itself: its names are identifiers, the names
of its members do not repeat, and every member fits its value type and knows its owner.
Whether references lead somewhere is a matter of the whole schema.
-/

namespace LearningStore.Schema

/-- What holds of the members of a list and of one more holds of all of them. -/
theorem forall_mem_concat {α : Type} {P : α → Prop} {members : List α} {a : α}
    (old : ∀ b ∈ members, P b) (new : P a) : ∀ b ∈ members ++ [a], P b :=
  List.forall_mem_append.mpr ⟨old, List.forall_mem_singleton.mpr new⟩

/-- Members with distinct names stay so when one is added whose name is not taken. -/
theorem nodup_names_concat {α : Type} {name : α → String} {members : List α} {a : α}
    (distinct : (members.map name).Nodup)
    (fresh : ¬(members.any fun b => name b == name a) = true) :
    ((members ++ [a]).map name).Nodup := by
  rw [List.map_append, List.map_singleton]
  refine List.nodup_append.mpr ⟨distinct, List.pairwise_singleton _ _, ?_⟩
  intro taken member added same equal
  obtain ⟨b, inside, rfl⟩ := List.mem_map.mp member
  apply fresh
  rw [List.mem_singleton.mp same] at equal
  exact List.any_eq_true.mpr ⟨b, inside, beq_iff_eq.mpr equal⟩

/-- A member with an identifier for a name, which refers to an item type or to an enum
exactly if its value type asks for that. -/
structure Member.Sound (m : Member) : Prop where
  name : IsIdentifier m.name
  itemTypeName : m.itemTypeName.isSome ↔ m.valueType = .itemIdentifier
  enumName : m.enumName.isSome ↔ m.valueType = .enumeration

/-- A property that fits its value type and can stand in the item type `owner`. -/
structure Property.Sound (owner : String) (p : Property) : Prop where
  member : p.toMember.Sound
  owner_eq : p.owner = owner
  name_ne : p.name ≠ "Id"
  length : ∀ n, p.length = some n →
    ∃ limit, p.valueType.lengthLimit = some limit ∧ 1 ≤ n ∧ n ≤ limit
  rowGuid : p.rowGuid = true → p.valueType = .guid
  cascadeDelete : p.cascadeDelete = true → p.valueType = .itemIdentifier
  null : p.default = some .null → p.nullable = true
  literal : ∀ l, p.default = some (.literal l) → l.valueType = p.valueType

/-- A column that can stand in the view `owner`. -/
structure Column.Sound (owner : String) (c : Column) : Prop where
  member : c.toMember.Sound
  owner_eq : c.owner = owner

/-- A parameter that can stand in the view or the right `owner`. -/
structure Parameter.Sound (owner : Owner) (p : Parameter) : Prop where
  member : p.toMember.Sound
  owner_eq : p.owner = owner

structure EnumType.Sound (e : EnumType) : Prop where
  name : IsIdentifier e.name
  values : ∀ v ∈ e.values, IsIdentifier v.name
  distinct : (e.values.map EnumValue.name).Nodup

structure ItemType.Sound (i : ItemType) : Prop where
  name : IsIdentifier i.name
  properties : ∀ p ∈ i.properties, p.Sound i.name
  distinct : (i.properties.map fun p => p.name).Nodup

/-- The parameters of a view, unlike those of a right, may share a name. -/
structure View.Sound (v : View) : Prop where
  name : IsIdentifier v.name
  columns : ∀ c ∈ v.columns, c.Sound v.name
  parameters : ∀ p ∈ v.parameters, p.Sound (.view v.name)

structure Right.Sound (r : Right) : Prop where
  name : IsIdentifier r.name
  parameters : ∀ p ∈ r.parameters, p.Sound (.right r.name)
  distinct : (r.parameters.map fun p => p.name).Nodup

/-- The declarations of a file whose elements are sound.  The members that an extension
adds are sound for the element that it names. -/
structure SchemaFile.Sound (f : SchemaFile) : Prop where
  enums : ∀ x ∈ f.enums, x.item.Sound
  itemTypes : ∀ x ∈ f.itemTypes, x.item.Sound
  views : ∀ x ∈ f.views, x.item.Sound
  rights : ∀ x ∈ f.rights, x.item.Sound
  itemTypeExtensions : ∀ x ∈ f.itemTypeExtensions,
    ∀ p ∈ x.body.properties, p.item.Sound x.name
  rightExtensions : ∀ x ∈ f.rightExtensions, ∀ p ∈ x.parameters, p.item.Sound (.right x.name)

theorem SchemaFile.Sound.empty (fileName : String) : (SchemaFile.empty fileName).Sound := by
  constructor <;> exact fun _ member => nomatch member

/-- Documentation has no part in soundness. -/
theorem Property.Sound.extended {owner : String} {p : Property} (h : p.Sound owner)
    (extra : Documentation) : (p.extended extra).Sound owner :=
  ⟨⟨h.member.name, h.member.itemTypeName, h.member.enumName⟩, h.owner_eq, h.name_ne,
    h.length, h.rowGuid, h.cascadeDelete, h.null, h.literal⟩

theorem Parameter.Sound.extended {owner : Owner} {p : Parameter} (h : p.Sound owner)
    (extra : Documentation) : (p.extended extra).Sound owner :=
  ⟨⟨h.member.name, h.member.itemTypeName, h.member.enumName⟩, h.owner_eq⟩

end LearningStore.Schema
