import LearningStore.Proofs.Results
import LearningStore.Proofs.Schema.Validity
import Mathlib.Data.List.Nodup

/-!
# Lookups

Generators look up what members refer to, and every lookup may fail.  In a valid schema
a member whose type asks for a reference has one and it leads somewhere.
-/

namespace LearningStore

open LearningStore.Schema
open LearningStore.Text
open LearningStore.Value

/-- Where names are distinct, the member with a name is the one that is found. -/
theorem find?_eq_some_iff {α : Type} {nameOf : α → String} {xs : List α}
    (distinct : (xs.map nameOf).Nodup) {name : String} {a : α} :
    (xs.find? fun b => nameOf b == name) = some a ↔ a ∈ xs ∧ nameOf a = name := by
  have named {b : α} (found : (xs.find? fun b => nameOf b == name) = some b) :
      nameOf b = name := by
    simpa using List.find?_some found
  constructor
  · intro found
    exact ⟨List.mem_of_find?_eq_some found, named found⟩
  · rintro ⟨inside, same⟩
    have present : (xs.find? fun b => nameOf b == name).isSome := by
      rw [List.find?_isSome]
      exact ⟨a, inside, beq_iff_eq.mpr same⟩
    obtain ⟨b, found⟩ := Option.isSome_iff_exists.mp present
    have equal : nameOf b = nameOf a := (named found).trans same.symm
    rw [found, List.inj_on_of_nodup_map distinct (List.mem_of_find?_eq_some found) inside equal]

namespace Schema

variable {s : Schema}

/-! ## Lookups -/

theorem Named.itemTypes_apart (h : s.Named) :
    ((s.itemTypes.map ItemType.name).map lowered).Nodup := by
  refine h.distinct.sublist (.map lowered ?_)
  unfold elementNames
  rw [List.append_assoc, List.append_assoc]
  exact (List.sublist_append_left _ _).trans (List.sublist_append_right _ _)

theorem Named.itemTypes_distinct (h : s.Named) : (s.itemTypes.map ItemType.name).Nodup :=
  h.itemTypes_apart.of_map lowered

theorem Named.enums_apart (h : s.Named) : ((s.enums.map EnumType.name).map lowered).Nodup := by
  refine h.distinct.sublist (.map lowered ?_)
  unfold elementNames
  rw [List.append_assoc, List.append_assoc]
  exact List.sublist_append_left _ _

theorem Named.enums_distinct (h : s.Named) : (s.enums.map EnumType.name).Nodup :=
  h.enums_apart.of_map lowered

/-- The item type that is found is one of the schema and has the name that the member
refers to. -/
theorem mem_of_referencedItemType {m : Member} {i : ItemType}
    (found : s.referencedItemType m = .ok i) : i ∈ s.itemTypes ∧ m.itemTypeName = some i.name := by
  unfold referencedItemType at found
  split at found
  next other led =>
    cases found
    obtain ⟨name, named, lookup⟩ := Option.bind_eq_some_iff.mp led
    have same : i.name = name := by simpa using List.find?_some lookup
    exact ⟨List.mem_of_find?_eq_some lookup, same ▸ named⟩
  next => cases found

/-- The enum that is found is one of the schema and has the name that the member refers
to. -/
theorem mem_of_referencedEnum {m : Member} {e : EnumType}
    (found : s.referencedEnum m = .ok e) : e ∈ s.enums ∧ m.enumName = some e.name := by
  unfold referencedEnum at found
  split at found
  next other led =>
    cases found
    obtain ⟨name, named, lookup⟩ := Option.bind_eq_some_iff.mp led
    have same : e.name = name := by simpa using List.find?_some lookup
    exact ⟨List.mem_of_find?_eq_some lookup, same ▸ named⟩
  next => cases found

/-- Among the members of a valid schema, those with item identifiers have an item type
to refer to. -/
theorem Member.Valid.referencedItemType {m : Member} (h : m.Valid s)
    (type : m.valueType = .itemIdentifier) : Succeeds (s.referencedItemType m) := by
  obtain ⟨name, named⟩ := Option.isSome_iff_exists.mp (h.itemType_present.mpr type)
  obtain ⟨i, found⟩ := h.itemType? named
  exact ⟨i, referencedItemType_eq_ok named found⟩

/-- Among the members of a valid schema, those with enum values have an enum to refer
to. -/
theorem Member.Valid.referencedEnum {m : Member} (h : m.Valid s)
    (type : m.valueType = .enumeration) : Succeeds (s.referencedEnum m) := by
  obtain ⟨name, named⟩ := Option.isSome_iff_exists.mp (h.enum_present.mpr type)
  obtain ⟨e, found⟩ := h.enum? named
  exact ⟨e, referencedEnum_eq_ok named found⟩

end Schema

end LearningStore
