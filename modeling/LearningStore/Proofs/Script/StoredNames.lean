import LearningStore.Proofs.Script.Guarding
import LearningStore.Proofs.Script.Recording
import Mathlib.Data.Finset.Disjoint

/-!
# Created and recorded names

The names of the functions that a schema has, and those that its document records.  An
upgrade creates no default views, and so their names are never in its way.  A document over
the base of one schema records the guards, views and rights of another, except for the guards
of item types that the base does not have.
-/

namespace LearningStore.Script

open LearningStore.Schema
open LearningStore.Text
open LearningStore.Xml

variable {s s₀ : Schema} {name : String}

/-! ## Created names -/

/-- The names of the functions of a schema. -/
def functionNames (s : Schema) (withDefaultViews : Bool) : Finset String :=
  ((functions s withDefaultViews).map fun d => d.function.name).toFinset

/-- The names of the default views of a schema. -/
def defaultViews (s : Schema) : Finset String :=
  (s.itemTypes.map ItemType.defaultViewFunction).toFinset

/-- A name of a function that guards items of a type. -/
def IsItemGuard (s : Schema) (name : String) : Prop :=
  ∃ i ∈ s.itemTypes, ∃ right, i.securityFunction? right = some name

/-- A name of a view, or of a function that guards a view or is a right. -/
def IsViewOrRight (s : Schema) (name : String) : Prop :=
  (∃ v ∈ s.views, v.name = name ∨ v.securityFunction? = some name) ∨
    ∃ r ∈ s.rights, r.securityFunction? = some name

theorem mem_functionNames_iff {withDefaultViews : Bool} :
    name ∈ functionNames s withDefaultViews ↔
      ∃ x ∈ slots s withDefaultViews, ∃ d ∈ x.functions, d.function.name = name := by
  rw [functionNames, List.mem_toFinset, List.mem_map]
  constructor
  · rintro ⟨d, inside, named⟩
    obtain ⟨x, slot, member⟩ := List.mem_flatMap.mp (functions_perm.mem_iff.mp inside)
    exact ⟨x, slot, d, member, named⟩
  · rintro ⟨x, slot, d, member, named⟩
    exact ⟨d, (mem_functions_of_slot slot member).1, named⟩

/-- A guard is the one function of its slot. -/
theorem mem_guard_iff {function : Option String} {make : String → Described}
    (named : ∀ name, (make name).function.name = name) :
    (∃ d ∈ function.toList.map make, d.function.name = name) ↔ function = some name := by
  cases function <;> simp [named]

/-- An upgrade creates guards, views and rights. -/
theorem mem_functionNames :
    name ∈ functionNames s false ↔ IsItemGuard s name ∨ IsViewOrRight s name := by
  have itemGuard (i : ItemType) (right : ItemRight) :
      (∃ d ∈ (itemRightSlot i right).functions, d.function.name = name) ↔
        i.securityFunction? right = some name :=
    mem_guard_iff fun _ => rfl
  have viewGuard (v : View) :
      (∃ d ∈ (viewSecuritySlot v).functions, d.function.name = name) ↔
        v.securityFunction? = some name :=
    mem_guard_iff fun _ => rfl
  have right (r : Right) :
      (∃ d ∈ (rightSlot r).functions, d.function.name = name) ↔
        r.securityFunction? = some name :=
    mem_guard_iff fun _ => rfl
  have view (v : View) :
      (∃ d ∈ (viewSlot v).functions, d.function.name = name) ↔ v.name = name := by
    simp [viewSlot, viewFunction]
  rw [mem_functionNames_iff]
  constructor
  · rintro ⟨x, slot, found⟩
    rcases mem_slots_iff.mp slot with ⟨i, inside, rfl | ⟨kind, rfl⟩⟩ | ⟨v, inside, rfl | rfl⟩ |
      ⟨r, inside, rfl⟩
    · obtain ⟨d, impossible, -⟩ := found
      cases impossible
    · exact .inl ⟨i, inside, kind, (itemGuard i kind).mp found⟩
    · exact .inr (.inl ⟨v, inside, .inl ((view v).mp found)⟩)
    · exact .inr (.inl ⟨v, inside, .inr ((viewGuard v).mp found)⟩)
    · exact .inr (.inr ⟨r, inside, (right r).mp found⟩)
  · rintro (⟨i, inside, kind, found⟩ | ⟨v, inside, found | found⟩ | ⟨r, inside, found⟩)
    · exact ⟨_, mem_slots_iff.mpr (.inl ⟨i, inside, .inr ⟨kind, rfl⟩⟩),
        (itemGuard i kind).mpr found⟩
    · exact ⟨_, mem_slots_iff.mpr (.inr (.inl ⟨v, inside, .inl rfl⟩)), (view v).mpr found⟩
    · exact ⟨_, mem_slots_iff.mpr (.inr (.inl ⟨v, inside, .inr rfl⟩)),
        (viewGuard v).mpr found⟩
    · exact ⟨_, mem_slots_iff.mpr (.inr (.inr ⟨r, inside, rfl⟩)), (right r).mpr found⟩

/-- The script that creates a store creates the default views as well. -/
theorem functionNames_withDefaultViews (s : Schema) :
    functionNames s true = defaultViews s ∪ functionNames s false := by
  ext name
  rw [Finset.mem_union, defaultViews, List.mem_toFinset, List.mem_map, mem_functionNames_iff,
    mem_functionNames_iff]
  constructor
  · rintro ⟨x, slot, found⟩
    rcases mem_slots_iff.mp slot with ⟨i, inside, rfl | other⟩ | others
    · obtain ⟨d, member, rfl⟩ := found
      rcases List.mem_singleton.mp member with rfl
      exact .inl ⟨i, inside, rfl⟩
    · exact .inr ⟨x, mem_slots_iff.mpr (.inl ⟨i, inside, .inr other⟩), found⟩
    · exact .inr ⟨x, mem_slots_iff.mpr (.inr others), found⟩
  · rintro (⟨i, inside, rfl⟩ | ⟨x, slot, found⟩)
    · exact ⟨_, mem_slots_iff.mpr (.inl ⟨i, inside, .inl rfl⟩), defaultViewFunction i,
        List.mem_singleton.mpr rfl, rfl⟩
    · rcases mem_slots_iff.mp slot with ⟨i, inside, rfl | other⟩ | others
      · obtain ⟨d, impossible, -⟩ := found
        cases impossible
      · exact ⟨x, mem_slots_iff.mpr (.inl ⟨i, inside, .inr other⟩), found⟩
      · exact ⟨x, mem_slots_iff.mpr (.inr others), found⟩

/-- The ending of a default view is that of no other function. -/
theorem ending_ne_defaultView {x : Slot} (slot : x ∈ slots s false) (used : x.functions ≠ []) :
    lowered "$DefaultView" ≠ lowered x.ending := by
  have guard (right : ItemRight) : lowered "$DefaultView" ≠ lowered right.functionSuffix := by
    cases right <;> decide
  rcases mem_slots_iff.mp slot with ⟨i, -, rfl | ⟨right, rfl⟩⟩ | ⟨v, -, rfl | rfl⟩ | ⟨r, -, rfl⟩
  · exact absurd rfl used
  · exact guard right
  · exact (by decide : lowered "$DefaultView" ≠ lowered "")
  · exact (by decide : lowered "$DefaultView" ≠ lowered "$Security")
  · exact (by decide : lowered "$DefaultView" ≠ lowered "")

/-- No upgrade creates a function under the name of a default view, of whichever schema. -/
theorem disjoint_defaultViews (first : s₀.Named) (second : s.Named) :
    Disjoint (defaultViews s₀) (functionNames s false) := by
  rw [Finset.disjoint_left]
  intro name default created
  rw [defaultViews, List.mem_toFinset, List.mem_map] at default
  obtain ⟨i, inside, rfl⟩ := default
  obtain ⟨x, slot, d, member, same⟩ := mem_functionNames_iff.mp created
  have named := (mem_functions_of_slot slot member).2
  have owner : i.name ∈ s₀.elementNames := by
    simp only [Schema.elementNames, List.mem_append, List.mem_map]
    exact .inl (.inl (.inr ⟨i, inside, rfl⟩))
  have equal : lowered (i.name ++ "$DefaultView") = lowered (x.owner ++ x.ending) :=
    congrArg lowered (same.symm.trans named)
  exact ending_ne_defaultView slot (List.ne_nil_of_mem member)
    (owner_and_ending_eq (first.identifiers _ owner).dollar_notMem
      (second.identifiers _ (slot_owner_mem slot)).dollar_notMem (by decide)
      (slot_isEnding slot) equal).2

/-! ## Recorded names -/

theorem securityAttribute_injective {a b : ItemRight}
    (same : securityAttribute a = securityAttribute b) : a = b := by
  revert same
  cases a <;> cases b <;> decide

/-- The guard of a right is found under the attribute for it. -/
theorem lookup_securityAttributes (i : ItemType) (right : ItemRight) :
    (securityAttributes i).lookup (securityAttribute right) = i.securityFunction? right := by
  have found (rights : List ItemRight) :
      (rights.filterMap fun kind => (i.securityFunction? kind).map fun function =>
        (securityAttribute kind, function)).lookup (securityAttribute right) =
      if right ∈ rights then i.securityFunction? right else none := by
    induction rights with
    | nil => rfl
    | cons kind rest ih =>
        by_cases same : right = kind
        · subst same
          cases guarded : i.securityFunction? right <;> simp [guarded, ih]
        · have other : (securityAttribute right == securityAttribute kind) = false :=
            beq_eq_false_iff_ne.mpr fun equal => same (securityAttribute_injective equal)
          cases guarded : i.securityFunction? kind <;>
            simp [guarded, ih, same, other, List.lookup_cons]
  have all : right ∈ recordedRights := by
    cases right <;> decide
  exact (found recordedRights).trans (if_pos all)

/-- The names that a record holds for the functions to drop. -/
def Record.functionNames (r : Record) : List String :=
  recordedFunctions.filterMap fun entry =>
    if entry.2 = r.markup.name then r.markup.attributes.lookup entry.1 else none

theorem mem_recordedNames {rs : List Record} :
    name ∈ recordedNames rs ↔ name ∈ rs.flatMap Record.functionNames := by
  simp only [recordedNames, recordsNamed, Record.functionNames, List.mem_flatMap,
    List.mem_filterMap, List.mem_filter, beq_iff_eq, Option.ite_none_right_eq_some]
  constructor
  · rintro ⟨entry, listed, r, ⟨inside, same⟩, found⟩
    exact ⟨r, inside, entry, listed, same.symm, found⟩
  · rintro ⟨r, inside, entry, listed, same, found⟩
    exact ⟨entry, listed, r, ⟨inside, same.symm⟩, found⟩

theorem functionNames_viewRecord {v : View} {r : Record} (made : viewRecord s v = .ok r) :
    r.functionNames = v.name :: v.securityFunction?.toList := by
  obtain ⟨columns, -, rest⟩ := bind_eq_ok.mp made
  obtain ⟨parameters, -, same⟩ := bind_eq_ok.mp rest
  cases same
  cases v.securityFunction? <;>
    simp [Record.functionNames, recordedFunctions, guardAttribute, List.lookup_cons]

theorem functionNames_rightRecord {v : Right} {r : Record} (made : rightRecord s v = .ok r) :
    r.functionNames = v.securityFunction?.toList := by
  obtain ⟨parameters, -, rfl⟩ := map_eq_ok.mp made
  cases v.securityFunction? <;>
    simp [Record.functionNames, recordedFunctions, guardAttribute, List.lookup_cons]

theorem functionNames_enumRecord (e : EnumType) : (enumRecord e).functionNames = [] := rfl

/-! ## The base of a schema -/

/-- The record of an item type without its guards. -/
def bareRecord (s : Schema) (i : ItemType) : Except LookupError Record :=
  (i.properties.mapM (propertyMarkup s)).map fun members =>
    ⟨⟨"ItemType", [("Name", i.name), ("ViewFunction", i.defaultViewFunction)]⟩, members⟩

/-- The records of item types, without guards, and of enums. -/
def baseRecords (s : Schema) : Except LookupError (List Record) :=
  (s.itemTypes.mapM (bareRecord s)).map fun bare => bare ++ s.enums.map enumRecord

theorem itemTypeName?_bareRecord {i : ItemType} {r : Record} (made : bareRecord s i = .ok r) :
    r.itemTypeName? = some i.name := by
  obtain ⟨members, -, rfl⟩ := map_eq_ok.mp made
  rfl

theorem name_bareRecord {i : ItemType} {r : Record} (made : bareRecord s i = .ok r) :
    r.markup.name = "ItemType" := by
  obtain ⟨members, -, rfl⟩ := map_eq_ok.mp made
  rfl

theorem itemTypeName?_enumRecord (e : EnumType) : (enumRecord e).itemTypeName? = none := rfl

/-- The base has no guards. -/
theorem plain_bareRecord {i : ItemType} {r : Record} (made : bareRecord s i = .ok r)
    (right : ItemRight) : r.hasAttribute (securityAttribute right) = false := by
  obtain ⟨members, -, rfl⟩ := map_eq_ok.mp made
  cases right <;> simp [Record.hasAttribute, securityAttribute]

/-- Only records of item types have guards. -/
theorem map_guarded_enumRecord (itemTypes : List ItemType) (enums : List EnumType) :
    (enums.map enumRecord).map (guarded itemTypes) = enums.map enumRecord := by
  rw [List.map_map]
  rfl

theorem itemTypeRecord_eq_ok {i : ItemType} {r : Record} (made : itemTypeRecord s i = .ok r) :
    ∃ bare, bareRecord s i = .ok bare ∧ bare.extend (securityAttributes i) = r := by
  obtain ⟨members, passed, rfl⟩ := map_eq_ok.mp made
  exact ⟨_, map_eq_ok.mpr ⟨members, passed, rfl⟩, rfl⟩

/-- The base has the item types of the schema, in their order. -/
theorem itemTypeNames_baseRecords {base : List Record} (made : baseRecords s = .ok base) :
    base.filterMap Record.itemTypeName? = s.itemTypes.map ItemType.name := by
  obtain ⟨bare, passed, rfl⟩ := map_eq_ok.mp made
  have enums : (s.enums.map enumRecord).filterMap Record.itemTypeName? = [] := by
    rw [List.filterMap_map]
    exact List.filterMap_eq_nil_iff.mpr fun e _ => itemTypeName?_enumRecord e
  rw [List.filterMap_append, enums, List.append_nil, List.filterMap_eq_flatMap_toList,
    List.map_eq_flatMap]
  exact flatMap_eq_of_mapM passed fun _ _ _ each => by rw [itemTypeName?_bareRecord each]; rfl

/-- The base of a schema has neither guards nor two item types of one name. -/
theorem base_baseRecords (h : s.Named) {base : List Record} (made : baseRecords s = .ok base) :
    Base base := by
  have distinct : DistinctItemTypes base := by
    rw [DistinctItemTypes, itemTypeNames_baseRecords made]
    exact h.itemTypes_distinct
  obtain ⟨bare, passed, rfl⟩ := map_eq_ok.mp made
  refine ⟨?_, ?_, distinct⟩
  · refine List.forall_mem_append.mpr
      ⟨forall_mem_of_mapM passed fun _ _ _ each => .inl (name_bareRecord each), ?_⟩
    intro r inside
    obtain ⟨e, -, rfl⟩ := List.mem_map.mp inside
    exact .inr rfl
  · refine List.forall_mem_append.mpr
      ⟨forall_mem_of_mapM passed fun _ _ _ each => plain_bareRecord each, ?_⟩
    intro r inside right
    obtain ⟨e, -, rfl⟩ := List.mem_map.mp inside
    cases right <;> simp [Record.hasAttribute, securityAttribute, enumRecord]

/-! ## The document over a base -/

/-- The document of a new store is that over the base of its schema. -/
theorem records_eq_storeRecords (h : s.Named) {rs : List Record} (made : records s = .ok rs) :
    ∃ base views rights, baseRecords s = .ok base ∧ s.views.mapM (viewRecord s) = .ok views ∧
      s.rights.mapM (rightRecord s) = .ok rights ∧ rs = storeRecords s base views rights := by
  obtain ⟨itemTypes, views, rights, itemTypesMade, viewsMade, rightsMade, rfl⟩ :=
    records_eq_ok made
  have each : ∀ i ∈ s.itemTypes, ∀ r, itemTypeRecord s i = .ok r →
      ∃ bare, bareRecord s i = .ok bare ∧ guarded s.itemTypes bare = r := by
    intro i inside r recorded
    obtain ⟨bare, bareMade, same⟩ := itemTypeRecord_eq_ok recorded
    refine ⟨bare, bareMade, ?_⟩
    have found := (find?_eq_some_iff h.itemTypes_distinct).mpr ⟨inside, rfl⟩
    rw [guarded, itemTypeName?_bareRecord bareMade, Option.bind_some, found]
    exact same
  obtain ⟨bare, passed, rfl⟩ := mapM_eq_ok_of_factor itemTypesMade each
  refine ⟨_, views, rights, map_eq_ok.mpr ⟨bare, passed, rfl⟩, viewsMade, rightsMade, ?_⟩
  rw [storeRecords, List.map_append, map_guarded_enumRecord]

theorem mem_guardNames {i : ItemType} :
    name ∈ guardNames i ↔ ∃ right, i.securityFunction? right = some name := by
  have all (right : ItemRight) : right ∈ recordedRights := by
    cases right <;> decide
  simp [guardNames, all]

/-- The record of an item type holds the functions for its rights. -/
theorem functionNames_itemType (attributes : List (String × String)) (members : List Markup) :
    (Record.mk ⟨"ItemType", attributes⟩ members).functionNames =
      recordedRights.flatMap fun right =>
        (attributes.lookup (securityAttribute right)).toList := by
  rw [← List.filterMap_eq_flatMap_toList]
  simp [Record.functionNames, recordedFunctions, recordedRights, securityAttribute,
    List.filterMap_cons]

/-- The guards recorded for an item type are those of the schema that has it. -/
theorem functionNames_guarded {itemTypes : List ItemType} {i : ItemType} {bare : Record}
    (made : bareRecord s₀ i = .ok bare) : (guarded itemTypes bare).functionNames =
      (itemTypes.find? fun j => j.name == i.name).toList.flatMap guardNames := by
  have named := itemTypeName?_bareRecord made
  obtain ⟨members, -, rfl⟩ := map_eq_ok.mp made
  rw [guarded, named, Option.bind_some]
  cases found : itemTypes.find? fun j => j.name == i.name with
  | none =>
      rw [functionNames_itemType]
      rfl
  | some j =>
      have looked (right : ItemRight) : (("Name", i.name) ::
          ("ViewFunction", i.defaultViewFunction) :: securityAttributes j).lookup
            (securityAttribute right) = j.securityFunction? right := by
        rw [← lookup_securityAttributes]
        cases right <;> simp [securityAttribute, List.lookup_cons]
      refine (functionNames_itemType _ members).trans ?_
      rw [Option.toList_some, List.flatMap_singleton, guardNames]
      exact List.flatMap_congr fun right _ => congrArg Option.toList (looked right)

/-- Over the base of another schema, a schema has the guards of those item types recorded that
are in the base. -/
def IsKeptGuard (s₀ s : Schema) (name : String) : Prop :=
  ∃ i ∈ s.itemTypes, i.name ∈ s₀.itemTypes.map ItemType.name ∧
    ∃ right, i.securityFunction? right = some name

theorem mem_recordedNames_storeRecords (h : s.Named) {base views rights : List Record}
    (baseMade : baseRecords s₀ = .ok base) (viewsMade : s.views.mapM (viewRecord s) = .ok views)
    (rightsMade : s.rights.mapM (rightRecord s) = .ok rights) :
    name ∈ recordedNames (storeRecords s base views rights) ↔
      IsKeptGuard s₀ s name ∨ IsViewOrRight s name := by
  obtain ⟨bare, passed, rfl⟩ := map_eq_ok.mp baseMade
  have enums : ((s₀.enums.map enumRecord).map (guarded s.itemTypes)).flatMap
      Record.functionNames = [] := by
    rw [map_guarded_enumRecord, List.flatMap_map]
    exact List.flatMap_eq_nil_iff.mpr fun e _ => functionNames_enumRecord e
  have kept : (bare.map (guarded s.itemTypes)).flatMap Record.functionNames =
      s₀.itemTypes.flatMap fun i =>
        (s.itemTypes.find? fun j => j.name == i.name).toList.flatMap guardNames := by
    rw [List.flatMap_map]
    exact flatMap_eq_of_mapM passed fun _ _ _ each => functionNames_guarded each
  rw [mem_recordedNames, storeRecords, List.map_append, List.flatMap_append,
    List.flatMap_append, List.flatMap_append, enums, List.append_nil, kept,
    flatMap_eq_of_mapM viewsMade fun _ _ _ each => functionNames_viewRecord each,
    flatMap_eq_of_mapM rightsMade fun _ _ _ each => functionNames_rightRecord each]
  have found (i j : ItemType) :
      j ∈ (s.itemTypes.find? fun k => k.name == i.name).toList ↔
        j ∈ s.itemTypes ∧ j.name = i.name := by
    rw [Option.mem_toList]
    exact find?_eq_some_iff h.itemTypes_distinct
  simp only [List.mem_append, List.mem_flatMap, List.mem_cons, found, mem_guardNames,
    Option.mem_toList, IsKeptGuard, IsViewOrRight, List.mem_map, or_assoc, eq_comm (a := name)]
  refine or_congr_left ⟨?_, ?_⟩
  · rintro ⟨i, inside, j, ⟨member, same⟩, guard⟩
    exact ⟨j, member, ⟨i, inside, same.symm⟩, guard⟩
  · rintro ⟨j, member, ⟨i, inside, same⟩, guard⟩
    exact ⟨i, inside, j, ⟨member, same.symm⟩, guard⟩

end LearningStore.Script
