import LearningStore.Proofs.Script.Creation

/-!
# Tables

The script that creates a store makes the table with the stored document first, then a table
for every enum and every item type, and last the foreign keys between them.  No other
statement makes a table or relates two of them.
-/

namespace LearningStore.Script

open LearningStore.Schema
open LearningStore.Value

variable {s : Schema}

/-! ## Definitions of tables in a script -/

/-- Whether a statement makes a table or relates two of them. -/
def Statement.definesTable : Statement → Bool
  | createConfiguration | createEnumTable _ | createTable _ _ | addForeignKey _ => true
  | _ => false

/-- The statements of a script that make tables or relate them, in order. -/
def tableDefinitions (script : List Statement) : List Statement :=
  script.filter Statement.definesTable

@[simp] theorem tableDefinitions_append (a b : List Statement) :
    tableDefinitions (a ++ b) = tableDefinitions a ++ tableDefinitions b :=
  List.filter_append a b

theorem tableDefinitions_flatMap {α : Type} (xs : List α) (f : α → List Statement) :
    tableDefinitions (xs.flatMap f) = xs.flatMap fun a => tableDefinitions (f a) :=
  List.filter_flatMap

/-- What a script tells through its definitions of tables alone. -/
theorem filterMap_tableDefinitions {β : Type} {f : Statement → Option β}
    (only : ∀ st, st.definesTable = false → f st = none) (script : List Statement) :
    (tableDefinitions script).filterMap f = script.filterMap f := by
  rw [tableDefinitions, List.filterMap_filter]
  refine List.filterMap_congr fun st _ => ?_
  cases defines : st.definesTable with
  | true => rfl
  | false => exact (only st defines).symm

/-! ## Parts without tables -/

theorem tableDefinitions_flatMap_eq_nil {α : Type} {xs : List α} {f : α → List Statement}
    (none_defined : ∀ a, tableDefinitions (f a) = []) : tableDefinitions (xs.flatMap f) = [] := by
  rw [tableDefinitions_flatMap]
  exact List.flatMap_eq_nil_iff.mpr fun a _ => none_defined a

theorem tableDefinitions_snippets (texts : List String) : tableDefinitions (snippets texts) = [] :=
  tableDefinitions_flatMap_eq_nil fun _ => rfl

theorem tableDefinitions_createFunctions (s : Schema) (withDefaultViews : Bool) :
    tableDefinitions (createFunctions s withDefaultViews) = [] :=
  tableDefinitions_flatMap_eq_nil fun _ => rfl

theorem tableDefinitions_enumInserts (e : EnumType) : tableDefinitions (enumInserts e) = [] := by
  unfold enumInserts
  split
  next => rfl
  next =>
    refine List.filter_eq_nil_iff.mpr fun st inside => ?_
    rw [List.mem_append, List.mem_cons, List.mem_map, List.mem_singleton] at inside
    rcases inside with (rfl | ⟨row, -, rfl⟩) | rfl <;> exact Bool.false_ne_true

/-! ## The tables and the keys of a schema -/

def enumDefinition (e : EnumType) : Statement :=
  .createEnumTable e.name

def itemTypeDefinition (i : ItemType) : Statement :=
  .createTable i.name (i.properties.map TableColumn.ofProperty)

theorem tableDefinitions_enumTable (e : EnumType) :
    tableDefinitions (enumTable e) = [enumDefinition e] := by
  rw [enumTable, tableDefinitions_append, tableDefinitions_append, tableDefinitions_enumInserts]
  rfl

/-- The key of a property whose values are identifiers: it leads to the table of the element
that the property refers to. -/
def foreignKey? (i : ItemType) (p : Property) : Option ForeignKey :=
  match p.valueType with
  | .itemIdentifier => p.itemTypeName.map fun target => ⟨i.name, p.name, target, p.cascadeDelete⟩
  | .enumeration => p.enumName.map fun target => ⟨i.name, p.name, target, false⟩
  | _ => none

/-- The keys of an item type, one for each property that refers to something. -/
def foreignKeysOf (i : ItemType) : List ForeignKey :=
  i.properties.filterMap (foreignKey? i)

theorem foreignKey_eq {i : ItemType} {p : Property} {keys : List ForeignKey}
    (made : ForeignKey.ofProperty s i p = .ok keys) : keys = (foreignKey? i p).toList := by
  unfold ForeignKey.ofProperty at made
  split at made
  next type =>
    obtain ⟨target, found, rfl⟩ := map_eq_ok.mp made
    rw [foreignKey?, type, (mem_of_referencedItemType found).2]
    rfl
  next type =>
    obtain ⟨target, found, rfl⟩ := map_eq_ok.mp made
    rw [foreignKey?, type, (mem_of_referencedEnum found).2]
    rfl
  next no_item no_enum =>
    cases made
    unfold foreignKey?
    split
    next type => exact absurd type no_item
    next type => exact absurd type no_enum
    next => rfl

theorem tableDefinitions_constraintsAndIndexes {i : ItemType} {script : List Statement}
    (made : constraintsAndIndexes s i = .ok script) :
    tableDefinitions script = (foreignKeysOf i).map .addForeignKey := by
  obtain ⟨keys, found, rfl⟩ := map_eq_ok.mp made
  obtain ⟨lists, each, rfl⟩ := map_eq_ok.mp found
  have flat : lists.flatten = foreignKeysOf i := by
    rw [← List.flatMap_id, foreignKeysOf, List.filterMap_eq_flatMap_toList]
    exact flatMap_eq_of_mapM each fun p _ list made => foreignKey_eq made
  rw [tableDefinitions_append, tableDefinitions_snippets, List.append_nil, flat,
    tableDefinitions_flatMap, List.map_eq_flatMap]
  rfl

/-- All tables that the script for a schema makes, with all keys between them. -/
theorem tableDefinitions_init {script : List Statement} (made : init s = .ok script) :
    tableDefinitions script = .createConfiguration ::
      (s.enums.map enumDefinition ++ s.itemTypes.map itemTypeDefinition ++
        (s.itemTypes.flatMap foreignKeysOf).map .addForeignKey) := by
  obtain ⟨document, constraints, -, constrained, rfl⟩ := init_eq_ok made
  have front : tableDefinitions (initFront s) = [.createConfiguration] := by
    simp only [initFront, tableDefinitions_append, tableDefinitions_snippets]
    rfl
  have enums : tableDefinitions (s.enums.flatMap enumTable) = s.enums.map enumDefinition := by
    rw [tableDefinitions_flatMap, List.map_eq_flatMap]
    exact List.flatMap_congr fun e _ => tableDefinitions_enumTable e
  have itemTypes : tableDefinitions (s.itemTypes.flatMap itemTypeTable) =
      s.itemTypes.map itemTypeDefinition := by
    rw [tableDefinitions_flatMap, List.map_eq_flatMap]
    rfl
  have keys : tableDefinitions constraints.flatten =
      (s.itemTypes.flatMap foreignKeysOf).map .addForeignKey := by
    rw [← List.flatMap_id, tableDefinitions_flatMap, List.map_flatMap]
    exact flatMap_eq_of_mapM constrained fun i _ part made =>
      tableDefinitions_constraintsAndIndexes made
  have middle : tableDefinitions (initMiddle s constraints) = s.enums.map enumDefinition ++
      s.itemTypes.map itemTypeDefinition ++
        (s.itemTypes.flatMap foreignKeysOf).map .addForeignKey := by
    simp only [initMiddle, tableDefinitions_append, enums, itemTypes, keys]
    simp [createRole, closeBatch, tableDefinitions, Statement.definesTable]
  have back : tableDefinitions (initBack s) = [] := by
    simp only [initBack, tableDefinitions_append, tableDefinitions_snippets]
    rfl
  have document : tableDefinitions (.setDocument document :: initMiddle s constraints) =
      tableDefinitions (initMiddle s constraints) := rfl
  rw [tableDefinitions_append, tableDefinitions_append, tableDefinitions_append, front, document,
    middle, back, tableDefinitions_createFunctions]
  simp

/-- What the script for a schema tells through its definitions of tables alone. -/
theorem filterMap_init {β : Type} {f : Statement → Option β}
    (only : ∀ st, st.definesTable = false → f st = none) {script : List Statement}
    (made : init s = .ok script) : script.filterMap f = (f .createConfiguration).toList ++
      s.enums.filterMap (fun e => f (enumDefinition e)) ++
        s.itemTypes.filterMap (fun i => f (itemTypeDefinition i)) ++
          (s.itemTypes.flatMap foreignKeysOf).filterMap fun k => f (.addForeignKey k) := by
  have first (rest : List Statement) : (Statement.createConfiguration :: rest).filterMap f =
      (f .createConfiguration).toList ++ rest.filterMap f := by
    cases told : f .createConfiguration with
    | none => exact List.filterMap_cons_none told
    | some b => exact List.filterMap_cons_some told
  rw [← filterMap_tableDefinitions only, tableDefinitions_init made, first, List.filterMap_append,
    List.filterMap_append, List.filterMap_map, List.filterMap_map, List.filterMap_map,
    List.append_assoc, List.append_assoc, List.append_assoc]
  rfl

end LearningStore.Script
