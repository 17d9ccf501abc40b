import LearningStore.Proofs.Script.ObjectNames
import LearningStore.Proofs.Text.Gluing
import Mathlib.Data.List.Pairwise

/-!
# The names of keys

A script makes up the name of every key from the names of its table and its column, and it makes
a table of a fixed name for the stored document.  The sign between the parts of a key name may
also occur inside either part, and no name of an element is kept from being that of a key.
Hence the names clash for some schemas, and the main statement says for which.
-/

namespace LearningStore.Script

open LearningStore.Schema
open LearningStore.Text
open LearningStore.Value

variable {s : Schema}

/-! ## Names that scripts make up -/

/-- The key that a statement adds. -/
def Statement.key? : Statement → Option ForeignKey
  | addForeignKey k => some k
  | _ => none

/-- The names of the keys that a script adds, in order. -/
def keyNames (script : List Statement) : List String :=
  (script.filterMap Statement.key?).map ForeignKey.name

/-- The name of a table that a statement makes whatever the schema is. -/
def Statement.fixedTable? : Statement → Option String
  | createConfiguration => some "Configuration"
  | _ => none

def fixedTables (script : List Statement) : List String :=
  script.filterMap Statement.fixedTable?

/-- The names that a script makes up clash neither with each other nor with the names of the
objects that it creates for elements. -/
structure Unclashing (script : List Statement) : Prop where
  keys : Apart (keyNames script)
  objects : ∀ name ∈ fixedTables script ++ keyNames script, ∀ object ∈ objectNames script,
    lowered name ≠ lowered object

/-! ## Keys of a schema -/

/-- Whether the values of a property are identifiers: of items or of the values of an enum. -/
def isReference (p : Property) : Bool :=
  p.valueType == .itemIdentifier || p.valueType == .enumeration

/-- The names of the properties of an item type that have keys. -/
def referenceNames (i : ItemType) : List String :=
  (i.properties.filter isReference).map fun p => p.name

def keyName (i : ItemType) (reference : String) : String :=
  "FK_" ++ i.name ++ "_" ++ reference

/-- The names of all keys of a schema. -/
def schemaKeys (s : Schema) : List String :=
  s.itemTypes.flatMap fun i => (referenceNames i).map (keyName i)

/-- A property of a valid schema has a key if it is a reference. -/
theorem name_foreignKey? (i : ItemType) {p : Property} (valid : p.toMember.Valid s) :
    (foreignKey? i p).map ForeignKey.name =
      if isReference p then some (keyName i p.name) else none := by
  unfold foreignKey? isReference
  split
  next type =>
    obtain ⟨target, named⟩ := Option.isSome_iff_exists.mp (valid.itemType_present.mpr type)
    rw [type, named]
    rfl
  next type =>
    obtain ⟨target, named⟩ := Option.isSome_iff_exists.mp (valid.enum_present.mpr type)
    rw [type, named]
    rfl
  next no_item no_enum =>
    rw [if_neg]
    · rfl
    · rw [Bool.or_eq_true, beq_iff_eq, beq_iff_eq]
      rintro (type | type)
      · exact no_item type
      · exact no_enum type

theorem names_foreignKeysOf {i : ItemType} (valid : ∀ p ∈ i.properties, p.toMember.Valid s) :
    (foreignKeysOf i).map ForeignKey.name = (referenceNames i).map (keyName i) := by
  rw [foreignKeysOf, List.map_filterMap, referenceNames, List.map_map, ← List.filterMap_eq_map,
    List.filterMap_filter]
  refine List.filterMap_congr fun p inside => ?_
  exact name_foreignKey? i (valid p inside)

theorem keyNames_init (valid : s.Valid) {script : List Statement} (made : init s = .ok script) :
    keyNames script = schemaKeys s := by
  have only : ∀ st : Statement, st.definesTable = false → st.key? = none := by
    intro st defines
    cases st with
    | addForeignKey => cases defines
    | _ => rfl
  have keys : script.filterMap Statement.key? = s.itemTypes.flatMap foreignKeysOf := by
    rw [filterMap_init only made]
    simp [enumDefinition, itemTypeDefinition, Statement.key?]
  rw [keyNames, keys, List.map_flatMap, schemaKeys]
  exact List.flatMap_congr fun i inside =>
    names_foreignKeysOf fun p member => (valid.properties i inside p member).member

theorem fixedTables_init {script : List Statement} (made : init s = .ok script) :
    fixedTables script = ["Configuration"] := by
  have only : ∀ st : Statement, st.definesTable = false → st.fixedTable? = none := by
    intro st defines
    cases st with
    | createConfiguration => cases defines
    | _ => rfl
  rw [fixedTables, filterMap_init only made]
  simp [enumDefinition, itemTypeDefinition, Statement.fixedTable?]

/-! ## Clashes between keys -/

/-- One text is the name of keys of both item types: the name of the second goes on where that
of the first ends, and the column of the first takes up the rest. -/
def Glued (i j : ItemType) : Prop :=
  ∃ x ∈ referenceNames i, ∃ y ∈ referenceNames j, ∃ middle,
    lowered j.name = lowered i.name ++ "_" ++ middle ∧
      lowered x = middle ++ "_" ++ lowered y

theorem Glued.name_ne {i j : ItemType} (h : Glued i j) : lowered i.name ≠ lowered j.name := by
  obtain ⟨x, -, y, -, middle, longer, -⟩ := h
  intro same
  have lengths := congrArg String.length (same.trans longer)
  simp only [String.length_append] at lengths
  have sign : "_".length = 1 := rfl
  omega

theorem lowered_keyName (i : ItemType) (x : String) :
    lowered (keyName i x) = "fk_" ++ (lowered i.name ++ "_" ++ lowered x) := by
  simp only [keyName, lowered_append, String.append_assoc]
  rfl

/-- Keys of item types with different names clash exactly if the names are glued. -/
theorem disjoint_keys_iff {i j : ItemType} (different : lowered i.name ≠ lowered j.name) :
    ((referenceNames i).map fun x => lowered (keyName i x)).Disjoint
      ((referenceNames j).map fun y => lowered (keyName j y)) ↔ ¬ Glued i j ∧ ¬ Glued j i := by
  have clash (x y : String) : lowered (keyName i x) = lowered (keyName j y) ↔
      (∃ middle, lowered j.name = lowered i.name ++ "_" ++ middle ∧
          lowered x = middle ++ "_" ++ lowered y) ∨
        ∃ middle, lowered i.name = lowered j.name ++ "_" ++ middle ∧
          lowered y = middle ++ "_" ++ lowered x := by
    rw [lowered_keyName, lowered_keyName, String.append_right_inj, append_underscore_eq_iff,
      or_iff_right fun same => different same.1]
  rw [List.disjoint_left]
  simp only [List.mem_map]
  constructor
  · intro apart
    constructor
    · rintro ⟨x, hx, y, hy, glued⟩
      exact apart ⟨x, hx, rfl⟩ ⟨y, hy, ((clash x y).mpr (.inl glued)).symm⟩
    · rintro ⟨y, hy, x, hx, glued⟩
      exact apart ⟨x, hx, rfl⟩ ⟨y, hy, ((clash x y).mpr (.inr glued)).symm⟩
  · rintro ⟨forth, back⟩ _ ⟨x, hx, rfl⟩ ⟨y, hy, same⟩
    rcases (clash x y).mp same.symm with glued | glued
    · exact forth ⟨x, hx, y, hy, glued⟩
    · exact back ⟨y, hy, x, hx, glued⟩

theorem apart_itemKeys_iff {i : ItemType} :
    Apart ((referenceNames i).map (keyName i)) ↔ Apart (referenceNames i) := by
  have prefixed : (((referenceNames i).map (keyName i)).map lowered) =
      ((referenceNames i).map lowered).map fun x => "fk_" ++ (lowered i.name ++ "_" ++ x) := by
    rw [List.map_map, List.map_map]
    exact List.map_congr_left fun x _ => lowered_keyName i x
  rw [Apart, prefixed, Apart]
  refine List.nodup_map_iff fun x y same => ?_
  exact String.append_right_inj _ |>.mp (String.append_right_inj _ |>.mp same)

/-- The keys of a schema are told apart if those of each item type are, and if no two item types
glue their names to one. -/
theorem apart_schemaKeys_iff (h : s.Named) : Apart (schemaKeys s) ↔
    (∀ i ∈ s.itemTypes, Apart (referenceNames i)) ∧
      ∀ i ∈ s.itemTypes, ∀ j ∈ s.itemTypes, ¬ Glued i j := by
  let keys (i : ItemType) : List String := (referenceNames i).map fun x => lowered (keyName i x)
  have flat : (schemaKeys s).map lowered = s.itemTypes.flatMap keys := by
    rw [schemaKeys, List.map_flatMap]
    exact List.flatMap_congr fun i _ => List.map_map
  have single (i : ItemType) : (keys i).Nodup ↔ Apart (referenceNames i) := by
    rw [← apart_itemKeys_iff, Apart, List.map_map]
    rfl
  have different : s.itemTypes.Pairwise fun i j => lowered i.name ≠ lowered j.name := by
    have distinct := h.itemTypes_apart
    rw [List.map_map] at distinct
    exact List.pairwise_map.mp distinct
  rw [Apart, flat, List.nodup_flatMap]
  simp only [single]
  refine and_congr_right fun _ => ?_
  constructor
  · intro disjoint i first j second glued
    have symmetric : Std.Symm (Function.onFun List.Disjoint keys) := ⟨fun _ _ => List.disjoint_symm⟩
    have names := glued.name_ne
    have clear := disjoint.forall first second fun same => names (same ▸ rfl)
    exact ((disjoint_keys_iff names).mp clear).1 glued
  · intro unglued
    refine different.imp_of_mem fun {i j} first second names => ?_
    exact (disjoint_keys_iff names).mpr ⟨unglued i first j second, unglued j second i first⟩

/-! ## Clashes with objects -/

theorem plainNames_subset {name : String} (plain : name ∈ plainNames s) :
    name ∈ tableNames s ++ schemaFunctions s := by
  simp only [plainNames, schemaFunctions, List.mem_append, List.mem_map, List.mem_flatMap]
    at plain ⊢
  rcases plain with (table | ⟨v, known, rfl⟩) | right
  · exact .inl table
  · exact .inr (.inl (.inr ⟨v, known, List.mem_cons_self⟩))
  · exact .inr (.inr right)

/-- Among the objects, only those with plain names can have the name of something without the
sign that sets off endings. -/
theorem clear_of_objects_iff (h : s.Named) {script : List Statement} (made : init s = .ok script)
    {name : String} (plain : '$' ∉ name.toList) :
    (∀ object ∈ objectNames script, lowered name ≠ lowered object) ↔
      ∀ object ∈ plainNames s, lowered name ≠ lowered object := by
  rw [objectNames, tables_init made, names_created made]
  constructor
  · intro clear object inside
    refine clear object ?_
    rw [List.mem_append, names_functions_perm.mem_iff, ← List.mem_append]
    exact plainNames_subset inside
  · intro clear object inside same
    refine clear object ?_ same
    rw [plainNames, List.append_assoc]
    rcases List.mem_append.mp inside with table | function
    · exact List.mem_append_left _ table
    · obtain ⟨d, created, rfl⟩ := List.mem_map.mp function
      exact List.mem_append_right _ (function_of_plain h created plain same.symm)

theorem keyName_plain (valid : s.Valid) {i : ItemType} (inside : i ∈ s.itemTypes) {x : String}
    (reference : x ∈ referenceNames i) : '$' ∉ (keyName i x).toList := by
  obtain ⟨p, member, rfl⟩ := List.mem_map.mp reference
  have property := (List.mem_filter.mp member).1
  have owner := (valid.itemTypes i inside).dollar_notMem
  have column := (valid.properties i inside p property).member.name.dollar_notMem
  simp [keyName, owner, column]

/-! ## Schemas without clashes -/

/-- The names of elements and properties that make no key name twice, and that no key and no
fixed table can be taken for. -/
structure Unambiguous (s : Schema) : Prop where
  references : ∀ i ∈ s.itemTypes, Apart (referenceNames i)
  unglued : ∀ i ∈ s.itemTypes, ∀ j ∈ s.itemTypes, ¬ Glued i j
  keys : ∀ i ∈ s.itemTypes, ∀ x ∈ referenceNames i, ∀ object ∈ plainNames s,
    lowered (keyName i x) ≠ lowered object
  configuration : ∀ object ∈ plainNames s, lowered "Configuration" ≠ lowered object

theorem unclashing_iff (valid : s.Valid) (h : s.Named) {script : List Statement}
    (made : init s = .ok script) : Unclashing script ↔ Unambiguous s := by
  have fixed : (∀ object ∈ objectNames script, lowered "Configuration" ≠ lowered object) ↔
      ∀ object ∈ plainNames s, lowered "Configuration" ≠ lowered object :=
    clear_of_objects_iff h made (by decide)
  have keys : (∀ key ∈ schemaKeys s, ∀ object ∈ objectNames script,
      lowered key ≠ lowered object) ↔ ∀ i ∈ s.itemTypes, ∀ x ∈ referenceNames i,
        ∀ object ∈ plainNames s, lowered (keyName i x) ≠ lowered object := by
    rw [schemaKeys, List.forall_mem_flatMap]
    refine forall₂_congr fun i inside => ?_
    rw [List.forall_mem_map]
    exact forall₂_congr fun x reference =>
      clear_of_objects_iff h made (keyName_plain valid inside reference)
  constructor
  · rintro ⟨apart, objects⟩
    rw [keyNames_init valid made] at apart objects
    rw [fixedTables_init made] at objects
    obtain ⟨references, unglued⟩ := (apart_schemaKeys_iff h).mp apart
    obtain ⟨configuration, others⟩ := List.forall_mem_cons.mp objects
    exact ⟨references, unglued, keys.mp others, fixed.mp configuration⟩
  · rintro ⟨references, unglued, others, configuration⟩
    constructor
    · rw [keyNames_init valid made]
      exact (apart_schemaKeys_iff h).mpr ⟨references, unglued⟩
    · rw [keyNames_init valid made, fixedTables_init made]
      exact List.forall_mem_cons.mpr ⟨fixed.mpr configuration, keys.mpr others⟩

/-- The names that a script for a schema makes up: one for each reference, and one for the table
with the stored document.  They clash exactly if the schema leaves room for it. -/
structure MakesUp (s : Schema) (script : List Statement) : Prop where
  keys : keyNames script = s.itemTypes.flatMap fun i => (referenceNames i).map (keyName i)
  fixed : fixedTables script = ["Configuration"]
  unclashing_iff : Unclashing script ↔ Unambiguous s

theorem makesUp_of_finished (h : s.Finished) :
    ∃ script, init s = .ok script ∧ MakesUp s script := by
  obtain ⟨d, sound, complete, rfl⟩ := h.drafts
  have valid := sound.valid complete
  obtain ⟨script, made⟩ := succeeds_init valid
  refine ⟨script, made, keyNames_init valid made, fixedTables_init made, ?_⟩
  exact Script.unclashing_iff valid sound.named made

theorem makesUp_sample : Sample.schema.Finished ∧
    ∃ script, init Sample.schema = .ok script ∧ MakesUp Sample.schema script :=
  ⟨Sample.schema_finished, makesUp_of_finished Sample.schema_finished⟩

namespace Sample

/-- A file with enums named like what a script makes up, and with two item types whose keys get
one name. -/
def clashingFile : List Char :=
  (Schema.Sample.opening ++
    ["<Enum Name=", "\"configuration\">", "<Values/>", "</Enum>", "<Enum Name=\"fk_A_B_C\">",
      "<Values/>", "</Enum>", "<ItemType Name=\"A\">", "<Properties>",
      "<Property Name=\"B_C\" ", "Type=\"Enum\" ", "EnumName=", "\"configuration\"/>",
      "</Properties>", "</ItemType>", "<ItemType Name=\"A_B\">", "<Properties>",
      "<Property Name=\"C\" ", "Type=\"Enum\" ", "EnumName=", "\"configuration\"/>",
      "</Properties>", "</ItemType>", "</StoreSchema>"]).flatMap String.toList

/-- A property whose values are those of the first enum. -/
def settingProperty (owner name : String) : Property :=
  { name, owner, valueType := .enumeration, itemTypeName := none
    enumName := some "configuration", documentation := {}, inBase := false, nullable := false
    length := none, cascadeDelete := false, rowGuid := false, default := none
    constraints := [] }

def clashingSchema : Schema :=
  ⟨[⟨"configuration", [], {}, false⟩, ⟨"fk_A_B_C", [], {}, false⟩],
    [⟨"A", [settingProperty "A" "B_C"], [], [], [], [], [], [], {}, false⟩,
      ⟨"A_B", [settingProperty "A_B" "C"], [], [], [], [], [], [], {}, false⟩],
    [], [], [], []⟩

theorem clashingSchema_finished : clashingSchema.Finished :=
  finished_of_schemaOf? clashingFile "clashing.xml" false
    (schemaOf?_of_spelledOut (by repeat constructor) (by decide +kernel))

end Sample

/-- All three kinds of clashes at once: a key name is made twice, it is that of a table, and so
is the name of the table with the stored document. -/
theorem clashing_sample : Sample.clashingSchema.Finished ∧ ∃ script,
    init Sample.clashingSchema = .ok script ∧
      tables script = ["configuration", "fk_A_B_C", "A", "A_B"] ∧
      keyNames script = ["FK_A_B_C", "FK_A_B_C"] ∧ fixedTables script = ["Configuration"] ∧
      ¬ Unclashing script := by
  have finished := Sample.clashingSchema_finished
  obtain ⟨d, sound, complete, same⟩ := finished.drafts
  have valid : Sample.clashingSchema.Valid := same ▸ sound.valid complete
  obtain ⟨script, made⟩ := succeeds_init valid
  have keys : keyNames script = ["FK_A_B_C", "FK_A_B_C"] := keyNames_init valid made
  refine ⟨finished, script, made, tables_init made, keys, fixedTables_init made, ?_⟩
  intro unclashing
  have apart := unclashing.keys
  rw [keys] at apart
  exact absurd apart (by decide)

end LearningStore.Script
