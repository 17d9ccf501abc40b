import LearningStore.Proofs.Script.ColumnNames
import LearningStore.Proofs.Script.KeyNames
import LearningStore.Proofs.Script.StoredSchema

/-!
# Tables and the stored document

The script that creates a store tells of a property in several places: in the stored document, in
the column of a table, in a key, in the headers of two checks and in the default view.  What each
place tells agrees with what the document that is read back tells.  A column is read by the
clauses that the script makes up for it.  The constraints of the schema file stand behind these as
they are, and may repeat or contradict them.
-/

namespace LearningStore.Value.ValueType

/-- The type with a code. -/
def ofTypeCode? (code : Int) : Option ValueType :=
  all.find? fun t => t.typeCode == code

theorem ofTypeCode?_typeCode (t : ValueType) : ofTypeCode? t.typeCode = some t := by
  cases t <;> decide

theorem checkedLength_none (t : ValueType) : t.checkedLength none = none := by
  cases t <;> rfl

end LearningStore.Value.ValueType

namespace LearningStore.Script

open LearningStore.Schema
open LearningStore.Text
open LearningStore.Value
open LearningStore.Xml

variable {s : Schema}

/-! ## Clauses -/

namespace TableColumn

/-- The clauses that are made up for a column: all but the constraints of the schema file. -/
def ownClauses (c : TableColumn) : List String :=
  { c with constraints := [] }.clauses

/-- The clauses of a column that begin with a word, of those that are made up. -/
def clausesOf (word : String) (c : TableColumn) : List String :=
  c.ownClauses.filter fun clause => word.toList.isPrefixOf clause.toList

variable (c : TableColumn)

theorem definition_eq : c.definition = " ".intercalate
    (bracketed c.name :: c.type :: (c.ownClauses ++ c.constraints.map trimmed)) := by
  simp [definition, ownClauses, clauses]

/-- The check that guards a length. -/
def lengthCheck (name : String) (n : Int) : String :=
  "CHECK(LEN(" ++ bracketed name ++ ")<=" ++ integerText n ++ ")"

theorem clausesOf_notNull :
    c.clausesOf "NOT NULL" = if c.nullable then [] else ["NOT NULL"] := by
  obtain ⟨name, type, rowGuid, nullable, default, checked, constraints⟩ := c
  cases rowGuid <;> cases nullable <;> cases default <;> cases checked <;>
    simp [clausesOf, ownClauses, clauses]

theorem clausesOf_default : c.clausesOf "DEFAULT " =
    (c.default.map fun d => "DEFAULT " ++ d.sqlConstant).toList := by
  obtain ⟨name, type, rowGuid, nullable, default, checked, constraints⟩ := c
  cases rowGuid <;> cases nullable <;> cases default <;> cases checked <;>
    simp [clausesOf, ownClauses, clauses]

theorem clausesOf_check :
    c.clausesOf "CHECK(" = (c.checkedLength.map (lengthCheck c.name)).toList := by
  obtain ⟨name, type, rowGuid, nullable, default, checked, constraints⟩ := c
  cases rowGuid <;> cases nullable <;> cases default <;> cases checked <;>
    simp [clausesOf, ownClauses, clauses, lengthCheck]

end TableColumn

/-! ## Lengths -/

/-- A length stands in one place of a column: in the type, or in the check of a type without a
bound. -/
inductive StatesOnce (n : Int) (c : TableColumn) : Prop
  | inType {base : String} (sized : c.type = base ++ "(" ++ integerText n ++ ")")
      (unchecked : c.clausesOf "CHECK(" = [])
  | inCheck {base : String} (unbounded : c.type = base ++ "(max)")
      (checked : c.clausesOf "CHECK(" = [TableColumn.lengthCheck c.name n])

/-- Types with a length are bounded by it up to a limit. -/
theorem statesOnce_of_sized {t : ValueType} {base : String} {limit n : Int} {c : TableColumn}
    (sized : t.descriptor.sqlType = .sized base limit) (type : c.type = t.sqlType (some n))
    (checked : c.checkedLength = t.checkedLength (some n)) : StatesOnce n c := by
  simp only [ValueType.sqlType, ValueType.checkedLength, sized] at type checked
  by_cases bounded : n ≤ limit
  · rw [if_pos bounded] at type
    rw [if_neg (not_lt.mpr bounded)] at checked
    exact .inType type (by rw [c.clausesOf_check, checked]; rfl)
  · rw [if_neg bounded] at type
    rw [if_pos (not_le.mp bounded)] at checked
    exact .inCheck type (by rw [c.clausesOf_check, checked]; rfl)

theorem statesOnce_ofProperty {p : Property} (valid : p.Valid s) {n : Int}
    (declared : p.length = some n) : StatesOnce n (TableColumn.ofProperty p) := by
  have type : (TableColumn.ofProperty p).type = p.valueType.sqlType (some n) := by
    rw [← declared]
    rfl
  have checked : (TableColumn.ofProperty p).checkedLength =
      p.valueType.checkedLength (some n) := by
    rw [← declared]
    rfl
  rcases valid.length n declared with ⟨kind, -⟩ | ⟨kind, -⟩
  · exact statesOnce_of_sized (t := p.valueType) (by rw [kind]; rfl) type checked
  · exact statesOnce_of_sized (t := p.valueType) (by rw [kind]; rfl) type checked

/-! ## What agrees -/

/-- The columns of the table with a name, if a statement makes it for an item type. -/
def Statement.tableColumns? (name : String) : Statement → Option (List TableColumn)
  | createTable table columns => if table = name then some columns else none
  | _ => none

/-- The columns of the tables with a name, one list for each such table. -/
def columnsOf (name : String) (script : List Statement) : List (List TableColumn) :=
  script.filterMap (Statement.tableColumns? name)

/-- The table that a key leads to, if it is one of a certain column. -/
def ForeignKey.target? (table column : String) (k : ForeignKey) : Option String :=
  if k.table = table ∧ k.column = column then some k.target else none

/-- The tables that the keys of a column lead to, one for each such key. -/
def targetsOf (table column : String) (script : List Statement) : List String :=
  (script.filterMap Statement.key?).filterMap (ForeignKey.target? table column)

/-- The name of an element that a member refers to. -/
def StoredReference.name : StoredReference → String
  | itemType name => name
  | enum name => name

/-- The statement that makes the table of an element that a member refers to. -/
def StoredReference.Made (script : List Statement) : StoredReference → Prop
  | itemType name => ∃ columns, .createTable name columns ∈ script
  | enum name => .createEnumTable name ∈ script

/-- What a stored property, with the length that was declared, tells of a column. -/
structure ColumnAgrees (script : List Statement) (table : String) (length : Option Int)
    (q : StoredProperty) (c : TableColumn) : Prop where
  definition : c.definition = " ".intercalate
    (bracketed q.name :: c.type :: (c.ownClauses ++ c.constraints.map trimmed))
  nullable : c.clausesOf "NOT NULL" = if q.nullable then [] else ["NOT NULL"]
  hasDefault : q.hasDefault = c.default.isSome
  default : c.clausesOf "DEFAULT " = (c.default.map fun d => "DEFAULT " ++ d.sqlConstant).toList
  type : (ValueType.ofTypeCode? q.typeCode).map (fun t => t.sqlType length) = some c.type
  limited : ∀ n, length = some n → StatesOnce n c
  unlimited : length = none → c.clausesOf "CHECK(" = []
  targets : targetsOf table q.name script = (q.reference.map StoredReference.name).toList
  made : ∀ reference, q.reference = some reference → reference.Made script

/-- The parameters of a check on items, as the columns of the table give them. -/
def checkParameters (columns : List TableColumn) : ItemRight → List FunctionParameter
  | .query => []
  | .add => columns.map fun c => ⟨c.name, c.type, c.default⟩
  | .update =>
      idParameter :: columns.flatMap fun c =>
        [⟨c.name ++ "$Changed", "bit", none⟩, ⟨c.name, c.type, none⟩]
  | .delete => [idParameter]

/-- What a stored item type tells of its table and its functions.  There is one table with its
name, one default view of all its columns, and for every right a check exactly if the document
names it. -/
structure TableAgrees (script : List Statement) (i : ItemType) (t : StoredItemType) : Prop where
  name : t.name = i.name
  view : ∀ f, f ∈ created script ∧ f.name = t.viewFunction ↔
    f = ⟨t.viewFunction, [], .everyRow (t.properties.map StoredProperty.name) t.name⟩
  columns : ∃ columns, columnsOf t.name script = [columns] ∧
    columns.map TableColumn.name = t.properties.map StoredProperty.name ∧
    List.Forall₂ (fun (p : Property) x => ColumnAgrees script t.name p.length x.1 x.2)
      i.properties (t.properties.zip columns) ∧
    ∀ right f, f ∈ created script ∧ f.name = t.name ++ right.functionSuffix ↔
      (right, f.name) ∈ t.guards ∧ f = ⟨t.name ++ right.functionSuffix,
        checkParameters columns right, .granted (i.expressions right)⟩

/-- What a stored document tells of the tables in a script. -/
structure StoreAgrees (s : Schema) (script : List Statement) (stored : StoredSchema) : Prop where
  tables : tables script = stored.enums.map StoredEnum.name ++
    stored.itemTypes.map StoredItemType.name
  itemTypes : List.Forall₂ (TableAgrees script) s.itemTypes stored.itemTypes

/-! ## Tables and keys by their names -/

/-- Of members with distinct keys, only the one with a certain key gives anything. -/
theorem flatMap_eq_of_key {α β κ : Type} {key : α → κ} {f : α → List β} {xs : List α} {a : α}
    (distinct : (xs.map key).Nodup) (inside : a ∈ xs)
    (others : ∀ b ∈ xs, key b ≠ key a → f b = []) : xs.flatMap f = f a := by
  induction xs with
  | nil => cases inside
  | cons b rest ih =>
      rw [List.map_cons, List.nodup_cons] at distinct
      have later (c : α) (member : c ∈ rest) : key b ≠ key c :=
        fun same => distinct.1 (List.mem_map.mpr ⟨c, member, same.symm⟩)
      rw [List.flatMap_cons]
      rcases List.mem_cons.mp inside with rfl | behind
      · have nothing : rest.flatMap f = [] := List.flatMap_eq_nil_iff.mpr fun c member =>
          others c (List.mem_cons_of_mem _ member) (later c member).symm
        rw [nothing, List.append_nil]
      · rw [others b List.mem_cons_self (later a behind), List.nil_append]
        exact ih distinct.2 behind fun c member => others c (List.mem_cons_of_mem _ member)

section Named

variable {script : List Statement} {i : ItemType}

theorem columnsOf_init (named : s.Named) (made : init s = .ok script) (known : i ∈ s.itemTypes) :
    columnsOf i.name script = [i.properties.map TableColumn.ofProperty] := by
  have only : ∀ st : Statement, st.definesTable = false → st.tableColumns? i.name = none := by
    intro st defines
    cases st with
    | createTable => cases defines
    | _ => rfl
  have byTables : columnsOf i.name script = s.itemTypes.flatMap fun j =>
      ((itemTypeDefinition j).tableColumns? i.name).toList := by
    rw [columnsOf, filterMap_init only made, ← List.filterMap_eq_flatMap_toList]
    simp [enumDefinition, Statement.tableColumns?]
  rw [byTables, flatMap_eq_of_key named.itemTypes_distinct known]
  · rw [itemTypeDefinition, Statement.tableColumns?, if_pos rfl]
    rfl
  · intro j _ other
    rw [itemTypeDefinition, Statement.tableColumns?, if_neg other]
    rfl

/-- The key of a property leads to what it refers to. -/
theorem target_foreignKey? {p : Property} (valid : p.toMember.Valid s) :
    (foreignKey? i p).map ForeignKey.target =
      (StoredReference.ofMember p.toMember).map StoredReference.name := by
  unfold foreignKey?
  split
  next type =>
    obtain ⟨target, refers⟩ := Option.isSome_iff_exists.mp (valid.itemType_present.mpr type)
    rw [StoredReference.ofMember, refers]
    rfl
  next type =>
    obtain ⟨target, refers⟩ := Option.isSome_iff_exists.mp (valid.enum_present.mpr type)
    have absent : p.itemTypeName = none := by
      rw [← Option.not_isSome_iff_eq_none, valid.itemType_present, type]
      decide
    rw [StoredReference.ofMember, refers, absent]
    rfl
  next noItemType noEnum =>
    have first : p.itemTypeName = none := by
      rw [← Option.not_isSome_iff_eq_none, valid.itemType_present]
      exact noItemType
    have second : p.enumName = none := by
      rw [← Option.not_isSome_iff_eq_none, valid.enum_present]
      exact noEnum
    rw [StoredReference.ofMember, first, second]
    rfl

theorem table_and_column_of_foreignKey? {p : Property} {k : ForeignKey}
    (made : foreignKey? i p = some k) : k.table = i.name ∧ k.column = p.name := by
  unfold foreignKey? at made
  split at made
  next =>
    obtain ⟨target, -, rfl⟩ := Option.map_eq_some_iff.mp made
    exact ⟨rfl, rfl⟩
  next =>
    obtain ⟨target, -, rfl⟩ := Option.map_eq_some_iff.mp made
    exact ⟨rfl, rfl⟩
  next => cases made

theorem keys_init (made : init s = .ok script) :
    script.filterMap Statement.key? = s.itemTypes.flatMap foreignKeysOf := by
  have only : ∀ st : Statement, st.definesTable = false → st.key? = none := by
    intro st defines
    cases st with
    | addForeignKey => cases defines
    | _ => rfl
  rw [filterMap_init only made]
  simp [enumDefinition, itemTypeDefinition, Statement.key?]

theorem targetsOf_init (named : s.Named) (made : init s = .ok script) (known : i ∈ s.itemTypes)
    (distinct : (i.properties.map fun p => p.name).Nodup) {p : Property}
    (member : p ∈ i.properties) (valid : p.toMember.Valid s) :
    targetsOf i.name p.name script =
      ((StoredReference.ofMember p.toMember).map StoredReference.name).toList := by
  let target (j : ItemType) (q : Property) : Option String :=
    (foreignKey? j q).bind (ForeignKey.target? i.name p.name)
  have byProperties : targetsOf i.name p.name script =
      s.itemTypes.flatMap fun j => j.properties.flatMap fun q => (target j q).toList := by
    rw [targetsOf, keys_init made, List.filterMap_flatMap]
    refine List.flatMap_congr fun j _ => ?_
    rw [foreignKeysOf, List.filterMap_filterMap, List.filterMap_eq_flatMap_toList]
  have elsewhere {j : ItemType} {q : Property} (other : j.name ≠ i.name ∨ q.name ≠ p.name) :
      (target j q).toList = [] := by
    rw [Option.toList_eq_nil_iff, Option.bind_eq_none_iff]
    intro k keyed
    obtain ⟨table, column⟩ := table_and_column_of_foreignKey? keyed
    rw [ForeignKey.target?, table, column, if_neg]
    rintro ⟨sameTable, sameColumn⟩
    exact other.elim (· sameTable) (· sameColumn)
  rw [byProperties, flatMap_eq_of_key named.itemTypes_distinct known, flatMap_eq_of_key distinct member,
    ← target_foreignKey? (i := i) valid]
  · congr 1
    cases keyed : foreignKey? i p with
    | none => simp [target, keyed]
    | some k =>
        obtain ⟨table, column⟩ := table_and_column_of_foreignKey? keyed
        simp [target, keyed, ForeignKey.target?, table, column]
  · exact fun q _ other => elsewhere (.inr other)
  · exact fun j _ other => List.flatMap_eq_nil_iff.mpr fun q _ => elsewhere (.inl other)

theorem made_init (made : init s = .ok script) {m : Member} (valid : m.Valid s)
    {reference : StoredReference} (refers : StoredReference.ofMember m = some reference) :
    reference.Made script := by
  have inside (st : Statement) (defines : st ∈ tableDefinitions script) : st ∈ script :=
    List.mem_of_mem_filter defines
  rw [tableDefinitions_init made] at inside
  unfold StoredReference.ofMember at refers
  split at refers
  next name _ referred =>
    cases refers
    obtain ⟨i, known, rfl⟩ := valid.itemType_exists _ referred
    refine ⟨_, inside (itemTypeDefinition i) ?_⟩
    simp only [List.mem_cons, List.mem_append, List.mem_map]
    exact .inr (.inl (.inr ⟨i, known, rfl⟩))
  next name _ referred =>
    cases refers
    obtain ⟨e, known, rfl⟩ := valid.enum_exists _ referred
    refine inside (enumDefinition e) ?_
    simp only [List.mem_cons, List.mem_append, List.mem_map]
    exact .inr (.inl (.inl ⟨e, known, rfl⟩))
  next => cases refers

end Named

/-! ## Functions by their names -/

section Functions

variable {script : List Statement} {withDefaultViews : Bool} {i : ItemType}

/-- A script creates under the name of a slot just what is in the slot. -/
theorem mem_created_iff_of_slot (named : s.Named)
    (creates : Creates (functions s withDefaultViews) script) {x : Slot}
    (slot : x ∈ slots s withDefaultViews) {f : SqlFunction} :
    f ∈ created script ∧ f.name = x.name ↔ ∃ d ∈ x.functions, d.function = f := by
  rw [creates.created_eq, List.mem_map]
  constructor
  · rintro ⟨⟨d, inside, rfl⟩, same⟩
    exact ⟨d, mem_slot_of_name_eq named slot inside same, rfl⟩
  · rintro ⟨d, member, rfl⟩
    obtain ⟨inside, same⟩ := mem_functions_of_slot slot member
    exact ⟨⟨d, inside, rfl⟩, same⟩

theorem itemRightParameters_eq (i : ItemType) (right : ItemRight) :
    itemRightParameters i right =
      checkParameters (i.properties.map TableColumn.ofProperty) right := by
  cases right with
  | query | delete => rfl
  | add =>
      rw [checkParameters, List.map_map]
      rfl
  | update =>
      rw [checkParameters, List.flatMap_map]
      rfl

theorem mem_guards_iff {right : ItemRight} {name : String} :
    (right, name) ∈ (StoredItemType.ofItemType i).guards ↔ i.securityFunction? right = some name := by
  have recorded : right ∈ recordedRights := by cases right <;> decide
  simp only [StoredItemType.ofItemType, List.mem_filterMap, Option.map_eq_some_iff]
  constructor
  · rintro ⟨_, -, _, guarded, same⟩
    cases same
    exact guarded
  · exact fun guarded => ⟨right, recorded, name, guarded, rfl⟩

end Functions

/-! ## Finished schemas -/

theorem columnAgrees_ofProperty {script : List Statement} (valid : s.Valid) (named : s.Named)
    (made : init s = .ok script) {i : ItemType} (sound : i.Sound) (known : i ∈ s.itemTypes)
    {p : Property} (member : p ∈ i.properties) :
    ColumnAgrees script i.name p.length (.ofProperty p) (.ofProperty p) where
  definition := TableColumn.definition_eq _
  nullable := TableColumn.clausesOf_notNull _
  hasDefault := rfl
  default := TableColumn.clausesOf_default _
  type := by
    rw [StoredProperty.ofProperty, ValueType.ofTypeCode?_typeCode]
    rfl
  limited _ declared := statesOnce_ofProperty (valid.properties i known p member) declared
  unlimited none_declared := by
    have unchecked : (TableColumn.ofProperty p).checkedLength = none := by
      rw [TableColumn.ofProperty, none_declared, ValueType.checkedLength_none]
    rw [TableColumn.clausesOf_check, unchecked]
    rfl
  targets := targetsOf_init named made known sound.distinct member
    (valid.properties i known p member).member
  made _ := made_init made (valid.properties i known p member).member

theorem tableAgrees_ofItemType {script : List Statement} (valid : s.Valid) (named : s.Named)
    (made : init s = .ok script) {i : ItemType} (sound : i.Sound) (known : i ∈ s.itemTypes) :
    TableAgrees script i (.ofItemType i) := by
  have creates := creates_init made
  have names : (StoredItemType.ofItemType i).properties.map StoredProperty.name =
      i.properties.map fun p => p.name := List.map_map
  have pairs : (StoredItemType.ofItemType i).properties.zip
      (i.properties.map TableColumn.ofProperty) =
        i.properties.map fun p => (StoredProperty.ofProperty p, TableColumn.ofProperty p) :=
    List.zip_map'
  refine ⟨rfl, fun f => ?_, i.properties.map TableColumn.ofProperty, ?_, ?_, ?_,
    fun right f => ?_⟩
  · have slot : defaultViewSlot true i ∈ slots s true :=
      mem_slots_iff.mpr (.inl ⟨i, known, .inl rfl⟩)
    refine (mem_created_iff_of_slot named creates slot).trans ?_
    rw [names]
    constructor
    · rintro ⟨d, inside, rfl⟩
      cases List.mem_singleton.mp inside
      rfl
    · rintro rfl
      exact ⟨_, List.mem_singleton_self _, rfl⟩
  · exact columnsOf_init named made known
  · rw [names, List.map_map]
    rfl
  · rw [pairs, List.forall₂_map_right_iff, List.forall₂_same]
    exact fun p member => columnAgrees_ofProperty valid named made sound known member
  · have slot : itemRightSlot i right ∈ slots s true :=
      mem_slots_iff.mpr (.inl ⟨i, known, .inr ⟨right, rfl⟩⟩)
    refine (mem_created_iff_of_slot named creates slot).trans ?_
    rw [mem_guards_iff, ← itemRightParameters_eq]
    constructor
    · rintro ⟨d, inside, rfl⟩
      obtain ⟨name, guarded, rfl⟩ := List.mem_map.mp inside
      have checked := Option.mem_toList.mp guarded
      obtain ⟨-, spelled⟩ := Option.ite_none_left_eq_some.mp checked
      cases spelled
      exact ⟨checked, rfl⟩
    · rintro ⟨guarded, rfl⟩
      exact ⟨_, List.mem_map_of_mem (Option.mem_toList.mpr guarded), rfl⟩

/-- What a script stores: the document that a statement leaves in the variable, as it is read. -/
def Stores (script : List Statement) (stored : StoredSchema) : Prop :=
  ∃ rs text d, .setDocument rs ∈ script ∧
    Sql.evaluate [] (renderLines (Statement.setDocument rs).lines) =
      some ([("@schema", some text)], []) ∧
    Document.parse text = .ok d ∧ StoredSchema.ofElement? d.root = some stored

theorem stores_init {script : List Statement} (valid : s.Valid) (made : init s = .ok script) :
    Stores script (.ofSchema s) := by
  obtain ⟨rs, constraints, recorded, -, rfl⟩ := init_eq_ok made
  obtain ⟨d, parsed, read⟩ := parse_documentText (simple_records valid recorded)
  refine ⟨rs, documentText rs, d, by simp, evaluate_documentLines rs, parsed, ?_⟩
  rw [StoredSchema.ofElement?, read, Option.bind_some, ofRecords?_records valid recorded]

/-- The document that is stored for a finished schema agrees with the tables that are made with
it. -/
theorem storeAgrees_of_finished (finished : s.Finished) : ∃ script stored,
    init s = .ok script ∧ Stores script stored ∧ StoreAgrees s script stored := by
  obtain ⟨d, sound, complete, rfl⟩ := finished.drafts
  have valid := sound.valid complete
  obtain ⟨script, made⟩ := succeeds_init valid
  refine ⟨script, _, made, stores_init valid made, ?_, ?_⟩
  · rw [tables_init made, tableNames, StoredSchema.ofSchema, List.map_map, List.map_map]
    rfl
  · rw [StoredSchema.ofSchema, List.forall₂_map_right_iff, List.forall₂_same]
    exact fun i known =>
      tableAgrees_ofItemType valid sound.named made (sound.itemTypes i known) known

theorem storeAgrees_sample : Sample.schema.Finished ∧ ∃ script stored,
    init Sample.schema = .ok script ∧ Stores script stored ∧
      StoreAgrees Sample.schema script stored :=
  ⟨Sample.schema_finished, storeAgrees_of_finished Sample.schema_finished⟩

namespace Sample

/-- A file with constraints that contradict the property they belong to, or repeat it. -/
def constrainedFile : List Char :=
  (Schema.Sample.opening ++
    ["<Enum Name=", "\"Mood\">", "<Values/>", "</Enum>", "<ItemType Name=\"Pet\">",
      "<Properties>", "<Property Name=\"Level\" ", "Type=\"Int32\" ", "Nullable=\"true\">",
      "<Constraints>", "<Constraint>NOT NULL", " DEFAULT 0", " REFERENCES [Mood] (Id)",
      "</Constraint>", "</Constraints>", "</Property>", "<Property Name=\"Title\" ",
      "Type=\"String\" ", "Length=\"5\">", "<Constraints>", "<Constraint>",
      "CHECK(LEN([Title])&lt;=5)", "</Constraint>", "</Constraints>", "</Property>",
      "</Properties>", "</ItemType>", "</StoreSchema>"]).flatMap String.toList

def constrainedSchema : Schema :=
  ⟨[⟨"Mood", [], {}, false⟩],
    [⟨"Pet", [{ numberProperty "Level" with
        nullable := true, constraints := ["NOT NULL DEFAULT 0 REFERENCES [Mood] (Id)"] },
      { numberProperty "Title" with
        valueType := .string, length := some 5, constraints := ["CHECK(LEN([Title])<=5)"] }],
      [], [], [], [], [], [], {}, false⟩], [], [], [], []⟩

theorem constrainedSchema_finished : constrainedSchema.Finished :=
  finished_of_schemaOf? constrainedFile "constrained.xml" false
    (schemaOf?_of_spelledOut (by repeat constructor) (by decide +kernel))

end Sample

/-- What constraints add to a column the stored document does not tell: that it may not be null,
has a default and leads to another table, or a second time the length of its values. -/
theorem constrained_sample : Sample.constrainedSchema.Finished ∧ ∃ script stored,
    init Sample.constrainedSchema = .ok script ∧ Stores script stored ∧
      stored.itemTypes = [⟨"Pet", "Pet$DefaultView", [],
        [⟨"Level", 9, true, false, none⟩, ⟨"Title", 2, false, false, none⟩]⟩] ∧
      (columnsOf "Pet" script).map (fun columns => columns.map TableColumn.definition) =
        [["[Level] int NOT NULL DEFAULT 0 REFERENCES [Mood] (Id)",
          "[Title] nvarchar(5) NOT NULL CHECK(LEN([Title])<=5)"]] ∧
      script.filterMap Statement.key? = [] := by
  obtain ⟨d, sound, complete, same⟩ := Sample.constrainedSchema_finished.drafts
  have valid : Sample.constrainedSchema.Valid := same ▸ sound.valid complete
  have named : Sample.constrainedSchema.Named := same ▸ sound.named
  obtain ⟨script, made⟩ := succeeds_init valid
  refine ⟨Sample.constrainedSchema_finished, script, _, made, stores_init valid made, rfl, ?_, ?_⟩
  · have table : columnsOf "Pet" script = _ :=
      columnsOf_init named made (i := Sample.constrainedSchema.itemTypes[0]) List.mem_cons_self
    rw [table]
    decide +kernel
  · rw [keys_init made]
    rfl

end LearningStore.Script
