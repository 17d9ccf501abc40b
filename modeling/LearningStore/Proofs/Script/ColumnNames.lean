import LearningStore.Proofs.Script.ObjectNames

/-!
# The names of columns

The table of an item type has a column for the identifier and one for each property.  Readers and
extensions keep the names apart as they are written, but a database disregards their case.
Hence the columns of a store clash exactly if case is all that some of their names differ in.
-/

namespace LearningStore.Script

open LearningStore.Schema
open LearningStore.Text

variable {s : Schema}

/-! ## The columns of a script -/

/-- The names of the columns of the table that a statement makes. -/
def Statement.columns? : Statement → Option (List String)
  | createConfiguration => some ["EngineVersion", "SchemaDefinition"]
  | createEnumTable _ => some ["Id", "Name"]
  | createTable _ columns => some ("Id" :: columns.map TableColumn.name)
  | _ => none

/-- The columns of each table that a script makes, in order. -/
def tableColumns (script : List Statement) : List (List String) :=
  script.filterMap Statement.columns?

def propertyNames (i : ItemType) : List String :=
  i.properties.map fun p => p.name

/-- The column of the identifier and those of the properties. -/
def itemTypeColumns (i : ItemType) : List String :=
  "Id" :: propertyNames i

theorem tableColumns_init {script : List Statement} (made : init s = .ok script) :
    tableColumns script = ["EngineVersion", "SchemaDefinition"] ::
      (s.enums.map (fun _ => ["Id", "Name"]) ++ s.itemTypes.map itemTypeColumns) := by
  have only : ∀ st : Statement, st.definesTable = false → st.columns? = none := by
    intro st defines
    cases st with
    | createConfiguration | createEnumTable | createTable => cases defines
    | _ => rfl
  have named (i : ItemType) :
      (i.properties.map TableColumn.ofProperty).map TableColumn.name = propertyNames i :=
    List.map_map
  rw [tableColumns, filterMap_init only made]
  simp only [enumDefinition, itemTypeDefinition, Statement.columns?, named]
  simp [itemTypeColumns]

/-! ## Clashes between columns -/

/-- The columns of an item type are distinct as they are written. -/
theorem nodup_itemTypeColumns {i : ItemType} (h : i.Sound) : (itemTypeColumns i).Nodup := by
  refine List.nodup_cons.mpr ⟨?_, h.distinct⟩
  intro inside
  obtain ⟨p, member, named⟩ := List.mem_map.mp inside
  exact (h.properties p member).name_ne named

theorem apart_tableColumns_iff (sound : ∀ i ∈ s.itemTypes, i.Sound) {script : List Statement}
    (made : init s = .ok script) : (∀ columns ∈ tableColumns script, Apart columns) ↔
      ∀ i ∈ s.itemTypes, NoCaseVariants (itemTypeColumns i) := by
  have fixed : Apart ["EngineVersion", "SchemaDefinition"] ∧ Apart ["Id", "Name"] := by decide
  have single (i : ItemType) (inside : i ∈ s.itemTypes) :
      Apart (itemTypeColumns i) ↔ NoCaseVariants (itemTypeColumns i) := by
    rw [apart_iff, and_iff_right (nodup_itemTypeColumns (sound i inside))]
  rw [tableColumns_init made, List.forall_mem_cons, List.forall_mem_append, List.forall_mem_map,
    List.forall_mem_map]
  constructor
  · rintro ⟨-, -, apart⟩ i inside
    exact (single i inside).mp (apart i inside)
  · intro variants
    exact ⟨fixed.1, fun _ _ => fixed.2, fun i inside => (single i inside).mpr (variants i inside)⟩

theorem nodup_tableColumns (sound : ∀ i ∈ s.itemTypes, i.Sound) {script : List Statement}
    (made : init s = .ok script) : ∀ columns ∈ tableColumns script, columns.Nodup := by
  rw [tableColumns_init made, List.forall_mem_cons, List.forall_mem_append, List.forall_mem_map,
    List.forall_mem_map]
  exact ⟨by decide, fun _ _ => by decide, fun i inside => nodup_itemTypeColumns (sound i inside)⟩

/-- The tables in a script for a schema, by their columns: one for the stored document, and one
for each enum and each item type.  As they are written the columns of a table are distinct.  A
database tells them apart exactly if those of no item type differ in case alone. -/
structure ColumnsFit (s : Schema) (script : List Statement) : Prop where
  listed : tableColumns script = ["EngineVersion", "SchemaDefinition"] ::
    (s.enums.map (fun _ => ["Id", "Name"]) ++ s.itemTypes.map itemTypeColumns)
  written : ∀ columns ∈ tableColumns script, columns.Nodup
  apart_iff : (∀ columns ∈ tableColumns script, Apart columns) ↔
    ∀ i ∈ s.itemTypes, NoCaseVariants (itemTypeColumns i)

theorem columnsFit_of_finished (h : s.Finished) :
    ∃ script, init s = .ok script ∧ ColumnsFit s script := by
  obtain ⟨d, sound, complete, rfl⟩ := h.drafts
  obtain ⟨script, made⟩ := succeeds_init (sound.valid complete)
  refine ⟨script, made, tableColumns_init made, ?_, ?_⟩
  · exact nodup_tableColumns sound.itemTypes made
  · exact apart_tableColumns_iff sound.itemTypes made

theorem columnsFit_sample : Sample.schema.Finished ∧
    ∃ script, init Sample.schema = .ok script ∧ ColumnsFit Sample.schema script :=
  ⟨Sample.schema_finished, columnsFit_of_finished Sample.schema_finished⟩

namespace Sample

/-- A file that declares properties whose names differ in case, among themselves and from the
column of the identifier, and adds one more to its item type. -/
def variantsFile : List Char :=
  (Schema.Sample.opening ++
    ["<ItemType Name=", "\"Pet\">", "<Properties>", "<Property Name=\"Key\" ",
      "Type=\"Int32\"/>", "<Property Name=\"KEY\" ", "Type=\"Int32\"/>",
      "<Property Name=\"ID\" ", "Type=\"Int32\"/>", "</Properties>", "</ItemType>",
      "<ExtendItemType ", "Name=\"Pet\">", "<Properties>", "<Property Name=\"key\" ",
      "Type=\"Int32\"/>", "</Properties>", "</ExtendItemType>",
      "</StoreSchema>"]).flatMap String.toList

def numberMember (name : String) : Member :=
  { name, valueType := .int32, itemTypeName := none, enumName := none, documentation := {}
    inBase := false }

def numberProperty (name : String) : Property :=
  { numberMember name with
    owner := "Pet", nullable := false, length := none, cascadeDelete := false, rowGuid := false
    default := none, constraints := [] }

def variantsSchema : Schema :=
  ⟨[], [⟨"Pet", ["Key", "KEY", "ID", "key"].map numberProperty, [], [], [], [], [], [], {},
    false⟩], [], [], [], []⟩

theorem variantsSchema_finished : variantsSchema.Finished :=
  finished_of_schemaOf? variantsFile "variants.xml" false
    (schemaOf?_of_spelledOut (by repeat constructor) (by decide +kernel))

end Sample

/-- A table in which the name of every column is that of another in a different case. -/
theorem variants_sample : Sample.variantsSchema.Finished ∧ ∃ script,
    init Sample.variantsSchema = .ok script ∧
      ["Id", "Key", "KEY", "ID", "key"] ∈ tableColumns script ∧
      ¬ ∀ columns ∈ tableColumns script, Apart columns := by
  have finished := Sample.variantsSchema_finished
  obtain ⟨d, sound, complete, same⟩ := finished.drafts
  have valid : Sample.variantsSchema.Valid := same ▸ sound.valid complete
  obtain ⟨script, made⟩ := succeeds_init valid
  have inside : ["Id", "Key", "KEY", "ID", "key"] ∈ tableColumns script := by
    rw [tableColumns_init made]
    exact List.mem_cons_of_mem _ (List.mem_singleton.mpr rfl)
  refine ⟨finished, script, made, inside, ?_⟩
  intro apart
  exact absurd (apart _ inside) (by decide)

end LearningStore.Script
