import LearningStore.Proofs.Compile.Generation
import LearningStore.Proofs.Script.Passages
import LearningStore.Proofs.Script.Tables

/-!
# The names of objects

The tables and the functions of a store share one space of names, which a database searches
without regard to case.  An element gives its name to one object at most, and the names of all
other objects of the element end behind a sign that no identifier holds.
-/

namespace LearningStore.Text

/-- Names that are told apart without regard to case. -/
def Apart (names : List String) : Prop :=
  (names.map lowered).Nodup

instance (names : List String) : Decidable (Apart names) :=
  inferInstanceAs (Decidable (List.Nodup _))

theorem apart_append {a b : List String} : Apart (a ++ b) ↔
    Apart a ∧ Apart b ∧ ∀ x ∈ a, ∀ y ∈ b, lowered x ≠ lowered y := by
  simp [Apart, List.nodup_append]

/-- No two names among these differ in case alone. -/
def NoCaseVariants (names : List String) : Prop :=
  ∀ a ∈ names, ∀ b ∈ names, lowered a = lowered b → a = b

theorem apart_iff {names : List String} : Apart names ↔ names.Nodup ∧ NoCaseVariants names := by
  constructor
  · intro apart
    exact ⟨apart.of_map lowered, fun _ ha _ hb same => List.inj_on_of_nodup_map apart ha hb same⟩
  · rintro ⟨distinct, variants⟩
    exact distinct.map_on fun a ha b hb same => variants a ha b hb same

end LearningStore.Text

namespace LearningStore.Script

open LearningStore.Schema
open LearningStore.Text

variable {s : Schema}

/-! ## The objects of a script -/

/-- The name of the table that a statement makes for an element. -/
def Statement.table? : Statement → Option String
  | createEnumTable name | createTable name _ => some name
  | _ => none

/-- The names of the tables that a script makes for elements, in order. -/
def tables (script : List Statement) : List String :=
  script.filterMap Statement.table?

/-- The first line of the statement that makes a table for an element. -/
def tableLine (name : String) : Line :=
  line ("CREATE TABLE " ++ bracketed name ++ "(")

theorem Statement.map_head?_passage?_table (st : Statement) :
    (st.passage?.filter (opensWith "CREATE TABLE [")).map List.head? =
      st.table?.map fun name => some (tableLine name) := by
  cases st with
  | snippet | blank => rfl
  | createEnumTable name =>
      have opens := (createEnumTable name).opensWith_opening rfl
      exact congrArg (Option.map List.head?) (Option.filter_some_pos opens)
  | createTable name columns =>
      have opens := (createTable name columns).opensWith_opening rfl
      exact congrArg (Option.map List.head?) (Option.filter_some_pos opens)
  | _ =>
      exact congrArg (Option.map List.head?)
        (filter_passage?_eq_none (by simp only [opening]; decide) fun _ => id)

/-- The passages that make tables for elements tell the names of these tables. -/
theorem map_head?_passages_tables (script : List Statement) :
    ((passages script).filter (opensWith "CREATE TABLE [")).map List.head? =
      (tables script).map fun name => some (tableLine name) :=
  map_filter_passages Statement.map_head?_passage?_table script

/-- The names of all that a script creates for elements: tables and functions. -/
def objectNames (script : List Statement) : List String :=
  tables script ++ (created script).map SqlFunction.name

/-! ## The objects of a schema -/

/-- The elements with tables, which are named like them. -/
def tableNames (s : Schema) : List String :=
  s.enums.map EnumType.name ++ s.itemTypes.map ItemType.name

/-- The names of the functions of an item type: its default view, and a guard for each right
that something grants. -/
def itemTypeFunctions (i : ItemType) : List String :=
  i.defaultViewFunction :: ItemRight.all.filterMap i.securityFunction?

/-- The names of the functions of a view: the view, and its guard if something grants it. -/
def viewFunctions (v : View) : List String :=
  v.name :: v.securityFunction?.toList

/-- The name of the function of a right, if something grants it. -/
def rightFunctions (r : Right) : List String :=
  r.securityFunction?.toList

/-- The names of the functions of all elements. -/
def schemaFunctions (s : Schema) : List String :=
  s.itemTypes.flatMap itemTypeFunctions ++ s.views.flatMap viewFunctions ++
    s.rights.flatMap rightFunctions

theorem tables_init {script : List Statement} (made : init s = .ok script) :
    tables script = tableNames s := by
  have only : ∀ st : Statement, st.definesTable = false → st.table? = none := by
    intro st defines
    cases st with
    | createEnumTable | createTable => cases defines
    | _ => rfl
  rw [tables, filterMap_init only made, tableNames]
  simp [enumDefinition, itemTypeDefinition, Statement.table?]

/-! ## The functions of the elements -/

/-- A guard is created under its name. -/
theorem names_guard {function : Option String} {make : String → Described}
    (named : ∀ name, (make name).function.name = name) :
    (function.toList.map make).map (fun d => d.function.name) = function.toList := by
  rw [List.map_map]
  exact (List.map_congr_left fun name _ => named name).trans (List.map_id _)

theorem names_itemRightFunctions (i : ItemType) (rights : List ItemRight) :
    (rights.flatMap (itemRightFunction i)).map (fun d => d.function.name) =
      rights.filterMap i.securityFunction? := by
  rw [List.map_flatMap, List.filterMap_eq_flatMap_toList]
  exact List.flatMap_congr fun right _ => names_guard fun _ => rfl

theorem names_itemTypeSlots (i : ItemType) : (((itemTypeSlots true i).flatMap
    Slot.functions).map fun d => d.function.name).Perm (itemTypeFunctions i) := by
  have listed : (itemTypeSlots true i).flatMap Slot.functions =
      [ItemRight.delete, .update, .add].flatMap (itemRightFunction i) ++
        defaultViewFunction i :: [ItemRight.query].flatMap (itemRightFunction i) := by
    simp [itemTypeSlots, itemRightSlot, defaultViewSlot]
  rw [listed, List.map_append, List.map_cons, names_itemRightFunctions,
    names_itemRightFunctions]
  refine List.perm_middle.trans (.cons _ ?_)
  rw [← List.filterMap_append]
  exact List.Perm.filterMap _ (by decide)

theorem names_viewSlots (v : View) : ((viewSlots v).flatMap Slot.functions).map
    (fun d => d.function.name) = viewFunctions v := by
  have guard : (viewSecurityFunction v).map (fun d => d.function.name) =
      v.securityFunction?.toList := names_guard fun _ => rfl
  simp [viewSlots, viewSlot, viewSecuritySlot, viewFunction, viewFunctions, guard]

theorem names_rightSlot (r : Right) :
    (rightSlot r).functions.map (fun d => d.function.name) = rightFunctions r :=
  names_guard fun _ => rfl

/-- The names of functions, element by element. -/
theorem names_functions_perm :
    ((functions s true).map fun d => d.function.name).Perm (schemaFunctions s) := by
  refine (functions_perm.map _).trans ?_
  rw [slots, List.flatMap_append, List.flatMap_append, List.map_append, List.map_append,
    schemaFunctions]
  refine .append (.append ?_ ?_) ?_
  · rw [List.flatMap_assoc, List.map_flatMap]
    exact List.Perm.flatMap_left _ fun i _ => names_itemTypeSlots i
  · rw [List.flatMap_assoc, List.map_flatMap]
    exact .of_eq (List.flatMap_congr fun v _ => names_viewSlots v)
  · rw [List.flatMap_map, List.map_flatMap]
    exact .of_eq (List.flatMap_congr fun r _ => names_rightSlot r)

/-! ## Objects named like elements -/

/-- The names of the elements that give them to an object: a table, a view, or a right that
something grants. -/
def plainNames (s : Schema) : List String :=
  tableNames s ++ s.views.map View.name ++ s.rights.flatMap rightFunctions

theorem elementNames_eq (s : Schema) : s.elementNames =
    tableNames s ++ (s.views.map View.name ++ s.rights.map Right.name) :=
  List.append_assoc ..

/-- Tables are told apart from each other, and from views and rights. -/
theorem apart_elements (h : s.Named) : Apart (tableNames s) ∧
    Apart (s.views.map View.name ++ s.rights.map Right.name) ∧
      ∀ table ∈ tableNames s, ∀ name ∈ s.views.map View.name ++ s.rights.map Right.name,
        lowered table ≠ lowered name := by
  have distinct := h.distinct
  rw [elementNames_eq] at distinct
  exact apart_append.mp distinct

/-- A function whose name is, without regard to case, a text without the sign is a view or a
right. -/
theorem function_of_plain (h : s.Named) {d : Described} (inside : d ∈ functions s true)
    {name : String} (plain : '$' ∉ name.toList)
    (same : lowered d.function.name = lowered name) :
    d.function.name ∈ s.views.map View.name ++ s.rights.flatMap rightFunctions := by
  obtain ⟨x, slot, member⟩ := List.mem_flatMap.mp (functions_perm.mem_iff.mp inside)
  have named : d.function.name = x.name := (mem_functions_of_slot slot member).2
  have owner := (h.identifiers x.owner (slot_owner_mem slot)).dollar_notMem
  rw [named, Slot.name, ← String.append_empty (s := name)] at same
  obtain ⟨-, ending⟩ := owner_and_ending_eq owner plain (slot_isEnding slot) (by decide) same
  have suffix (right : ItemRight) : lowered right.functionSuffix ≠ lowered "" := by
    cases right <;> decide
  rw [List.mem_append]
  rcases mem_slots_iff.mp slot with ⟨i, -, rfl | ⟨right, rfl⟩⟩ | ⟨v, known, rfl | rfl⟩ |
    ⟨r, known, rfl⟩
  · exact absurd ending (by decide : lowered "$DefaultView" ≠ lowered "")
  · exact absurd ending (suffix right)
  · rw [named, Slot.name, viewSlot, String.append_empty]
    exact .inl (List.mem_map_of_mem known)
  · exact absurd ending (by decide : lowered "$Security" ≠ lowered "")
  · refine .inr (List.mem_flatMap.mpr ⟨r, known, ?_⟩)
    rw [← names_rightSlot]
    exact List.mem_map_of_mem member

/-- The tables and the functions for a schema are told apart. -/
theorem apart_objects (h : s.Named) :
    Apart (tableNames s ++ (functions s true).map fun d => d.function.name) := by
  obtain ⟨apart_tables, -, others⟩ := apart_elements h
  refine apart_append.mpr ⟨apart_tables, ?_, ?_⟩
  · have distinct := functions_distinct h true
    rw [Apart, List.map_map]
    exact distinct
  · intro table isTable name isFunction same
    obtain ⟨d, inside, rfl⟩ := List.mem_map.mp isFunction
    have element : table ∈ s.elementNames := by
      rw [elementNames_eq]
      exact List.mem_append_left _ isTable
    have plain := (h.identifiers table element).dollar_notMem
    refine others table isTable _ ?_ same
    rcases List.mem_append.mp (function_of_plain h inside plain same.symm) with view | right
    · exact List.mem_append_left _ view
    · obtain ⟨r, known, named⟩ := List.mem_flatMap.mp right
      rw [rightFunctions, Right.securityFunction?] at named
      split at named
      next => cases named
      next =>
        rw [List.mem_singleton.mp named]
        exact List.mem_append_right _ (List.mem_map_of_mem known)

/-! ## Each object once -/

/-- A script creates a table for every enum and every item type and the functions of all
elements, and no two of these objects have names that are the same without regard to case.  The
tables and the functions are what is read in the lines, too. -/
structure CreatesOnce (s : Schema) (script : List Statement) : Prop where
  tables : tables script = s.enums.map EnumType.name ++ s.itemTypes.map ItemType.name
  functions : ((created script).map SqlFunction.name).Perm (schemaFunctions s)
  apart : Apart (objectNames script)
  tableLines : ((passages script).filter (opensWith "CREATE TABLE [")).map List.head? =
    (tableNames s).map fun name => some (tableLine name)
  functionLines : (passages script).filter (opensWith "CREATE FUNCTION ") =
    (created script).map SqlFunction.lines

theorem names_created {script : List Statement} (made : init s = .ok script) :
    (created script).map SqlFunction.name = (functions s true).map fun d => d.function.name := by
  rw [(creates_init made).created_eq, List.map_map]
  rfl

theorem createsOnce_of_finished (h : s.Finished) :
    ∃ script, init s = .ok script ∧ CreatesOnce s script := by
  obtain ⟨d, sound, complete, rfl⟩ := h.drafts
  obtain ⟨script, made⟩ := succeeds_init (sound.valid complete)
  refine ⟨script, made, tables_init made, ?_, ?_, ?_, filter_passages_created script⟩
  · rw [names_created made]
    exact names_functions_perm
  · rw [objectNames, tables_init made, names_created made]
    exact apart_objects sound.named
  · rw [map_head?_passages_tables, tables_init made]

theorem createsOnce_sample : Sample.schema.Finished ∧
    ∃ script, init Sample.schema = .ok script ∧ CreatesOnce Sample.schema script :=
  ⟨Sample.schema_finished, createsOnce_of_finished Sample.schema_finished⟩

end LearningStore.Script
