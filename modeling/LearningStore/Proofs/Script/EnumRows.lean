import LearningStore.Proofs.Script.TableAgreement

/-!
# Rows of enum tables

The numbers of an enum stand in three places: as rows of its table, as defaults of properties and,
by name, in the comments of the helper files.  Several values may share a number, and each place
takes the first of them.  The rows are read off the statements that the script makes up itself; the
snippets of a schema file stand between them as they are, and are not looked into.
-/

namespace LearningStore.Script

open LearningStore.Helper
open LearningStore.Schema
open LearningStore.Text

variable {s : Schema}

/-! ## Rows and switches -/

namespace Statement

/-- The row that a statement inserts into a table.  The server does not regard case. -/
def rowInto? (table : String) : Statement → Option (Int × String)
  | insertRow other id name => if lowered other = lowered table then some (id, name) else none
  | _ => none

/-- The tables into which identifiers can be inserted, after a statement. -/
def switched (on : List String) : Statement → List String
  | identityInsert table true => table :: on
  | identityInsert table false => on.filter fun other => lowered other ≠ lowered table
  | _ => on

/-- Whether a statement has to do with the rows of an enum table. -/
def fillsTable : Statement → Bool
  | identityInsert _ _ | insertRow _ _ _ => true
  | _ => false

end Statement

/-- The first line of the statement that inserts a row into a table. -/
def rowLine (table : String) : Line :=
  line ("INSERT INTO " ++ bracketed table ++ "(")

/-- The lines behind the first one, with the row. -/
def valueLines (row : Int × String) : List Line :=
  indented [line "Id,", line "Name"] ++ [line ") VALUES ("] ++
    indented [line (integerText row.1 ++ ","), line (sqlString row.2)] ++ [line ")"]

/-- Whether a passage inserts a row into a table. -/
def insertsInto (table : String) (passage : List Line) : Bool :=
  opensWith "INSERT INTO [" passage &&
    passage.head?.any fun l => lowered l.text == lowered (rowLine table).text

theorem lowered_rowLine_iff {table other : String} :
    lowered (rowLine other).text = lowered (rowLine table).text ↔
      lowered other = lowered table := by
  simp only [rowLine, line, bracketed, lowered_append, String.append_left_inj,
    String.append_right_inj]

theorem Statement.map_tail_passage?_row (table : String) (st : Statement) :
    (st.passage?.filter (insertsInto table)).map List.tail =
      (st.rowInto? table).map valueLines := by
  cases st with
  | snippet | blank => rfl
  | insertRow other id name =>
      have opens := (insertRow other id name).opensWith_opening rfl
      have inserts : insertsInto table (insertRow other id name).lines = true ↔
          lowered other = lowered table := by
        rw [← lowered_rowLine_iff, insertsInto, Bool.and_eq_true_iff]
        exact (and_iff_right opens).trans beq_iff_eq
      by_cases same : lowered other = lowered table
      · rw [rowInto?, if_pos same]
        exact congrArg (Option.map List.tail) (Option.filter_some_pos (inserts.mpr same))
      · rw [rowInto?, if_neg same]
        have passed := Bool.eq_false_iff.mpr (mt inserts.mp same)
        exact congrArg (Option.map List.tail) (Option.filter_some_neg passed)
  | _ =>
      exact congrArg (Option.map List.tail) (filter_passage?_eq_none
        (by simp only [opening]; decide) fun _ passes => (Bool.and_eq_true_iff.mp passes).1)

/-- The rows that a script inserts into a table, in order. -/
def rowsInto (table : String) (script : List Statement) : List (Int × String) :=
  script.filterMap (Statement.rowInto? table)

/-- The passages that insert rows into a table tell what is in the rows. -/
theorem map_tail_passages_rowsInto (table : String) (script : List Statement) :
    ((passages script).filter (insertsInto table)).map List.tail =
      (rowsInto table script).map valueLines :=
  map_filter_passages (Statement.map_tail_passage?_row table) script

/-- The tables into which identifiers can be inserted after a script. -/
def switchedOn (script : List Statement) : List String :=
  script.foldl Statement.switched []

/-- The statements of a script that have to do with rows of enum tables. -/
def filling (script : List Statement) : List Statement :=
  script.filter Statement.fillsTable

@[simp] theorem filling_append (a b : List Statement) : filling (a ++ b) = filling a ++ filling b :=
  List.filter_append a b

theorem filling_flatMap {α : Type} (xs : List α) (f : α → List Statement) :
    filling (xs.flatMap f) = xs.flatMap fun a => filling (f a) :=
  List.filter_flatMap

theorem filling_flatMap_eq_nil {α : Type} {xs : List α} {f : α → List Statement}
    (none_fills : ∀ a, filling (f a) = []) : filling (xs.flatMap f) = [] := by
  rw [filling_flatMap]
  exact List.flatMap_eq_nil_iff.mpr fun a _ => none_fills a

theorem rowsInto_filling (table : String) (script : List Statement) :
    rowsInto table (filling script) = rowsInto table script := by
  rw [rowsInto, filling, List.filterMap_filter]
  refine List.filterMap_congr fun st _ => ?_
  cases st <;> rfl

theorem switchedOn_filling (script : List Statement) :
    switchedOn (filling script) = switchedOn script := by
  rw [switchedOn, filling, List.foldl_filter]
  refine List.foldl_ext _ _ _ fun on st _ => ?_
  cases st <;> rfl

theorem filling_enumInserts (e : EnumType) : filling (enumInserts e) = enumInserts e := by
  unfold enumInserts
  split
  next => rfl
  next =>
    refine List.filter_eq_self.mpr fun st inside => ?_
    rw [List.mem_append, List.mem_cons, List.mem_map, List.mem_singleton] at inside
    rcases inside with (rfl | ⟨row, -, rfl⟩) | rfl <;> rfl

theorem filling_constraintsAndIndexes {i : ItemType} {script : List Statement}
    (made : constraintsAndIndexes s i = .ok script) : filling script = [] := by
  obtain ⟨keys, found, rfl⟩ := map_eq_ok.mp made
  obtain ⟨lists, -, rfl⟩ := map_eq_ok.mp found
  rw [filling_append, snippets, filling_flatMap_eq_nil fun _ => rfl,
    filling_flatMap_eq_nil fun _ => rfl]
  rfl

/-- Only the tables of enums are filled, one after the other. -/
theorem filling_init {script : List Statement} (made : init s = .ok script) :
    filling script = s.enums.flatMap enumInserts := by
  obtain ⟨document, constraints, -, constrained, rfl⟩ := init_eq_ok made
  have snippets (texts : List String) : filling (snippets texts) = [] :=
    filling_flatMap_eq_nil fun _ => rfl
  have enums : filling (s.enums.flatMap enumTable) = s.enums.flatMap enumInserts := by
    rw [filling_flatMap]
    refine List.flatMap_congr fun e _ => ?_
    rw [enumTable, filling_append, filling_append, filling_enumInserts]
    exact List.append_nil _
  have itemTypes : filling (s.itemTypes.flatMap itemTypeTable) = [] :=
    filling_flatMap_eq_nil fun _ => rfl
  have keys : filling constraints.flatten = [] := by
    rw [← List.flatMap_id, filling_flatMap, List.flatMap_eq_nil_iff]
    exact forall_mem_of_mapM constrained fun i _ part made => filling_constraintsAndIndexes made
  have functions : filling (createFunctions s true) = [] := filling_flatMap_eq_nil fun _ => rfl
  have front : filling (initFront s) = [] := by
    simp only [initFront, filling_append, snippets]
    rfl
  have middle : filling (.setDocument document :: initMiddle s constraints) =
      s.enums.flatMap enumInserts := by
    have behind : filling (.setDocument document :: initMiddle s constraints) =
        filling (initMiddle s constraints) := rfl
    rw [behind]
    simp only [initMiddle, filling_append, enums, itemTypes, keys]
    simp [createRole, closeBatch, filling, Statement.fillsTable]
  have back : filling (initBack s) = [] := by
    simp only [initBack, filling_append, snippets]
    rfl
  rw [filling_append, filling_append, filling_append, front, middle, functions, back,
    List.append_nil, List.append_nil, List.nil_append]

/-! ## Rows of an enum -/

/-- The rows of an enum table: each number that was not seen, with the first name that it has. -/
theorem mem_enumRows_iff {seen : List Int} {values : List EnumValue} {id : Int} {name : String} :
    (id, name) ∈ enumRows seen values ↔
      id ∉ seen ∧ (values.find? fun v => v.value == id).map EnumValue.name = some name := by
  induction values generalizing seen with
  | nil => simp [enumRows]
  | cons v rest ih =>
      rw [enumRows]
      by_cases same : v.value = id
      · subst same
        rw [List.find?_cons_of_pos (by simp)]
        split
        next old =>
          have taken : v.value ∈ seen := List.contains_iff_mem.mp old
          exact iff_of_false (fun inside => (ih.mp inside).1 taken) fun h => h.1 taken
        next fresh =>
          have unseen : v.value ∉ seen := mt List.contains_iff_mem.mpr fresh
          simp [ih, unseen, eq_comm]
      · rw [List.find?_cons_of_neg (by simpa using same)]
        split
        next => exact ih
        next => simp [ih, Ne.symm same]

theorem nodup_enumRows (seen : List Int) (values : List EnumValue) :
    ((enumRows seen values).map Prod.fst).Nodup := by
  induction values generalizing seen with
  | nil => exact .nil
  | cons v rest ih =>
      rw [enumRows]
      split
      next => exact ih seen
      next =>
        refine List.nodup_cons.mpr ⟨fun repeated => ?_, ih (seen ++ [v.value])⟩
        obtain ⟨⟨id, name⟩, inside, same⟩ := List.mem_map.mp repeated
        refine (mem_enumRows_iff.mp inside).1 (List.mem_append_right seen ?_)
        exact List.mem_singleton.mpr same

example : enumRows [] [⟨"Fine", 1, none⟩, ⟨"Good", 1, none⟩, ⟨"Bad", 2, none⟩] =
    [(1, "Fine"), (2, "Bad")] := by
  decide

/-- The statements for the rows of an enum: its table is switched on, filled and switched off. -/
theorem enumInserts_cases (e : EnumType) : (e.values = [] ∧ enumInserts e = []) ∨
    enumInserts e = .identityInsert e.name true ::
      (enumRows [] e.values).map (fun row => .insertRow e.name row.1 row.2) ++
        [.identityInsert e.name false] := by
  unfold enumInserts
  split
  next empty => exact .inl ⟨List.isEmpty_iff.mp empty, rfl⟩
  next => exact .inr rfl

theorem rowsInto_enumInserts (e : EnumType) :
    rowsInto e.name (enumInserts e) = enumRows [] e.values := by
  rcases enumInserts_cases e with ⟨empty, nothing⟩ | filled
  · rw [nothing, empty]
    rfl
  · rw [filled, rowsInto, List.filterMap_append, List.filterMap_cons_none rfl, List.filterMap_map]
    refine (List.append_nil _).trans ?_
    have each (row : Int × String) : (Statement.rowInto? e.name ∘ fun row =>
        .insertRow e.name row.1 row.2) row = some row := if_pos rfl
    rw [funext each, List.filterMap_some]

theorem rowsInto_of_other {e : EnumType} {table : String} (other : lowered e.name ≠ lowered table) :
    rowsInto table (enumInserts e) = [] := by
  rcases enumInserts_cases e with ⟨-, nothing⟩ | filled
  · rw [nothing]
    rfl
  · refine List.filterMap_eq_nil_iff.mpr fun st inside => ?_
    rw [filled, List.mem_append, List.mem_cons, List.mem_map, List.mem_singleton] at inside
    rcases inside with (rfl | ⟨row, -, rfl⟩) | rfl
    · rfl
    · exact if_neg other
    · rfl

/-- The rows that the script inserts into the table of an enum. -/
theorem rowsInto_init (named : s.Named) {script : List Statement} (made : init s = .ok script)
    {e : EnumType} (known : e ∈ s.enums) : rowsInto e.name script = enumRows [] e.values := by
  have apart := named.enums_apart
  rw [List.map_map] at apart
  rw [← rowsInto_filling, filling_init made, ← rowsInto_enumInserts, rowsInto,
    List.filterMap_flatMap]
  exact flatMap_eq_of_key (f := fun e' => rowsInto e.name (enumInserts e')) apart known
    fun e' _ other => rowsInto_of_other other

/-! ## Switches -/

/-- What a part of a script does with the switches, if none is on before it: at most one is on at a
time, and none after it. -/
structure SwitchesOneByOne (script : List Statement) : Prop where
  atMostOne : ∀ before, before <+: script → (switchedOn before).length ≤ 1
  off : switchedOn script = []

theorem SwitchesOneByOne.append {a b : List Statement} (first : SwitchesOneByOne a)
    (second : SwitchesOneByOne b) : SwitchesOneByOne (a ++ b) where
  atMostOne := by
    rintro before ⟨after, whole⟩
    rcases List.append_eq_append_iff.mp whole with ⟨rest, rfl, -⟩ | ⟨more, rfl, rfl⟩
    · exact first.atMostOne before (List.prefix_append before rest)
    · have passed : switchedOn (a ++ more) = switchedOn more := by
        rw [switchedOn, List.foldl_append, ← switchedOn, first.off]
        rfl
      rw [passed]
      exact second.atMostOne more (List.prefix_append more after)
  off := by
    rw [switchedOn, List.foldl_append, ← switchedOn, first.off]
    exact second.off

theorem switchesOneByOne_nil : SwitchesOneByOne [] := by
  refine ⟨fun before inside => ?_, rfl⟩
  rw [List.prefix_nil.mp inside]
  exact Nat.zero_le 1

theorem switchesOneByOne_flatMap {α : Type} {xs : List α} {f : α → List Statement}
    (each : ∀ a ∈ xs, SwitchesOneByOne (f a)) : SwitchesOneByOne (xs.flatMap f) := by
  induction xs with
  | nil => exact switchesOneByOne_nil
  | cons a rest ih =>
      obtain ⟨first, others⟩ := List.forall_mem_cons.mp each
      exact first.append (ih others)

/-- The rows of an enum leave the switches as they are. -/
theorem switched_rows {on : List String} {script : List Statement}
    (inserts : ∀ st ∈ script, ∃ table id name, st = .insertRow table id name) :
    script.foldl Statement.switched on = on := by
  induction script with
  | nil => rfl
  | cons st rest ih =>
      obtain ⟨⟨table, id, name, rfl⟩, others⟩ := List.forall_mem_cons.mp inserts
      exact ih others

theorem switchesOneByOne_enumInserts (e : EnumType) : SwitchesOneByOne (enumInserts e) := by
  rcases enumInserts_cases e with ⟨-, nothing⟩ | filled
  · exact nothing ▸ switchesOneByOne_nil
  · have inserts : ∀ st ∈ (enumRows [] e.values).map
        fun row => Statement.insertRow e.name row.1 row.2,
        ∃ table id name, st = .insertRow table id name := by
      intro st inside
      obtain ⟨row, -, rfl⟩ := List.mem_map.mp inside
      exact ⟨_, _, _, rfl⟩
    have whole : switchedOn (enumInserts e) = [] := by
      rw [filled, switchedOn, List.cons_append, List.foldl_cons, List.foldl_append,
        switched_rows inserts]
      simp [Statement.switched]
    refine ⟨fun before inside => ?_, whole⟩
    rw [filled] at inside
    rcases List.prefix_concat_iff.mp inside with rfl | opened
    · rw [← filled, whole]
      exact Nat.zero_le 1
    rcases List.prefix_cons_iff.mp opened with rfl | ⟨some_rows, rfl, part⟩
    · exact Nat.zero_le 1
    · rw [switchedOn, List.foldl_cons, switched_rows fun st given => inserts st (part.subset given)]
      exact le_rfl

theorem switchesOneByOne_init {script : List Statement} (made : init s = .ok script) :
    SwitchesOneByOne script := by
  have one := switchesOneByOne_flatMap fun (e : EnumType) (_ : e ∈ s.enums) =>
    switchesOneByOne_enumInserts e
  rw [← filling_init made] at one
  constructor
  · intro before inside
    rw [← switchedOn_filling]
    exact one.atMostOne _ (inside.filter _)
  · rw [← switchedOn_filling]
    exact one.off

/-! ## Defaults in comments -/

/-- A class of a helper file tells of a property in a line of the remarks about it. -/
def Tells (blocks : List NamespaceBlock) (i : ItemType) (p : Property) (told : String) : Prop :=
  ∃ b ∈ blocks, ∃ c constant remarks, .constants c ∈ b.types ∧ c.name = i.name ∧
    constant ∈ c.constants ∧ constant.name = p.name ∧
      constant.comment.remarks = some remarks ∧ told ∈ remarks

/-- What is said about a default that is shown by a name in an enum. -/
def namedDefault (places : EnumPlaces) (e : EnumType) (name : String) : String :=
  "Default value: " ++ ("<Fld>" ++ (places.tag e ++ "." ++ name) ++ "</Fld>") ++ "<p/>"

theorem defaultRemark_of_named {places : EnumPlaces} {p : Property} {e : EnumType} {number : Int}
    {name : String} (declared : p.default = some (.literal (.enumeration number)))
    (refers : s.referencedEnum p.toMember = .ok e) (named : e.nameOf? number = some name) :
    defaultRemark s places p = .ok (namedDefault places e name) := by
  rw [defaultRemark, declared]
  simp only [defaultDescription, refers, Except.map, named]
  rfl

theorem mem_remarks_of_propertyComment {places : EnumPlaces} {p : Property} {comment : DocComment}
    (commented : propertyComment s places p = .ok comment) {remark : String}
    (said : defaultRemark s places p = .ok remark) :
    ∃ remarks, comment.remarks = some remarks ∧ remark ∈ remarks := by
  obtain ⟨description, -, rest⟩ := bind_eq_ok.mp commented
  obtain ⟨default, same, made⟩ := bind_eq_ok.mp rest
  rw [said] at same
  cases same
  cases made
  exact ⟨_, rfl, by simp⟩

/-- The classes of a helper file tell of every property what is said about its default. -/
theorem tells_of_classes {t : Setting} {types : List TypeDeclaration} (made : t.classes = .ok types)
    {i : ItemType} (known : i ∈ t.schema.itemTypes) {p : Property} (member : p ∈ i.properties)
    {remark : String} (said : defaultRemark t.schema t.enums p = .ok remark)
    {blocks : List NamespaceBlock} {b : NamespaceBlock} (inside : b ∈ blocks)
    (holds : b.types = types) : Tells blocks i p remark := by
  obtain ⟨itemTypes, passed, rest⟩ := bind_eq_ok.mp made
  obtain ⟨views, -, rest⟩ := bind_eq_ok.mp rest
  obtain ⟨rights, -, same⟩ := bind_eq_ok.mp rest
  cases same
  obtain ⟨c, listed, classMade⟩ := exists_right_of_forall₂ (mapM_eq_ok.mp passed) known
  obtain ⟨constants, each, spelled⟩ := map_eq_ok.mp classMade
  obtain ⟨own, placed, ownMade⟩ := exists_right_of_forall₂ (mapM_eq_ok.mp each) member
  obtain ⟨comment, commented, rfl⟩ := map_eq_ok.mp ownMade
  obtain ⟨remarks, given, told⟩ := mem_remarks_of_propertyComment commented said
  have name : c.name = i.name := spelled ▸ rfl
  have constant : t.memberName true p.inBase i.name p.name comment ∈ c.constants := by
    rw [← spelled]
    exact List.mem_append_right _ (List.mem_flatten.mpr ⟨_, placed, List.mem_cons_self⟩)
  refine ⟨b, inside, c, _, remarks, ?_, name, constant, rfl, given, told⟩
  rw [holds]
  exact List.mem_map_of_mem (List.mem_append_left _ (List.mem_append_left _ listed))

/-! ## Finished schemas -/

/-- The rows of the table of an enum: each number of a value once, with the name by which the enum
knows it.  The rows are what is read in the lines, too. -/
structure ListsValues (script : List Statement) (e : EnumType) : Prop where
  distinct : ((rowsInto e.name script).map Prod.fst).Nodup
  numbers : ∀ id, id ∈ (rowsInto e.name script).map Prod.fst ↔ ∃ v ∈ e.values, v.value = id
  names : ∀ id name, (id, name) ∈ rowsInto e.name script → e.nameOf? id = some name
  rowLines : ((passages script).filter (insertsInto e.name)).map List.tail =
    (rowsInto e.name script).map valueLines

/-- A default of a property that is a number of an enum: the key of its column leads to the table
of the enum, which has a row with the number, and the helper files show the name in that row. -/
structure ShowsRow (s : Schema) (script : List Statement) (i : ItemType) (p : Property)
    (number : Int) (e : EnumType) (name : String) : Prop where
  enum : e ∈ s.enums
  key : targetsOf i.name p.name script = [e.name]
  row : (number, name) ∈ rowsInto e.name script
  storage : ∀ names, ∃ blocks, storageHelper s names = .ok blocks ∧
    Tells blocks i p (namedDefault (Setting.ofBase s names).enums e name)
  derived : ∀ names enumNamespace schemaNamespace, ∃ blocks,
    derivedHelper s names enumNamespace schemaNamespace = .ok blocks ∧
      Tells blocks i p (namedDefault (Setting.ofDerived s names enumNamespace).enums e name)

theorem exists_nameOf?_iff {e : EnumType} {id : Int} :
    (∃ name, e.nameOf? id = some name) ↔ ∃ v ∈ e.values, v.value = id := by
  simp [EnumType.nameOf?, ← Option.isSome_iff_exists]

theorem listsValues_init (named : s.Named) {script : List Statement} (made : init s = .ok script)
    {e : EnumType} (known : e ∈ s.enums) : ListsValues script e := by
  have rows := rowsInto_init named made known
  constructor
  · rw [rows]
    exact nodup_enumRows [] e.values
  · intro id
    rw [rows, ← exists_nameOf?_iff]
    constructor
    · intro listed
      obtain ⟨⟨_, name⟩, inside, rfl⟩ := List.mem_map.mp listed
      exact ⟨name, (mem_enumRows_iff.mp inside).2⟩
    · rintro ⟨name, named⟩
      exact List.mem_map.mpr ⟨(id, name), mem_enumRows_iff.mpr ⟨List.not_mem_nil, named⟩, rfl⟩
  · intro id name inside
    rw [rows] at inside
    exact (mem_enumRows_iff.mp inside).2
  · exact map_tail_passages_rowsInto e.name script

theorem showsRow_init (valid : s.Valid) (named : s.Named) {script : List Statement}
    (made : init s = .ok script) {i : ItemType} (known : i ∈ s.itemTypes) (sound : i.Sound)
    {p : Property} (member : p ∈ i.properties) {number : Int}
    (declared : p.default = some (.literal (.enumeration number))) :
    ∃ e name, ShowsRow s script i p number e name := by
  have validProperty := valid.properties i known p member
  obtain ⟨e, refers, valued⟩ := validProperty.enum_value number declared
  obtain ⟨inSchema, enumName⟩ := mem_of_referencedEnum refers
  obtain ⟨name, called⟩ := exists_nameOf?_iff.mpr valued
  have remark (places : EnumPlaces) :
      defaultRemark s places p = .ok (namedDefault places e name) :=
    defaultRemark_of_named declared refers called
  refine ⟨e, name, inSchema, ?_, ?_, fun names => ?_, fun names enumNamespace schemaNamespace => ?_⟩
  · have type : p.valueType = .enumeration := (validProperty.literal _ declared).1.symm
    have noItemType : p.itemTypeName = none := by
      rw [← Option.not_isSome_iff_eq_none, validProperty.member.itemType_present, type]
      decide
    rw [targetsOf_init named made known sound.distinct member validProperty.member,
      StoredReference.ofMember, enumName, noItemType]
    rfl
  · rw [rowsInto_init named made inSchema]
    exact mem_enumRows_iff.mpr ⟨List.not_mem_nil, called⟩
  · let t := Setting.ofBase s names
    obtain ⟨types, classes⟩ := Setting.succeeds_classes (t := t) valid
    refine ⟨_, map_eq_ok.mpr ⟨types, classes, rfl⟩, ?_⟩
    exact tells_of_classes classes known member (remark t.enums) List.mem_cons_self rfl
  · let t := Setting.ofDerived s names enumNamespace
    obtain ⟨types, classes⟩ := Setting.succeeds_classes (t := t) valid
    refine ⟨_, map_eq_ok.mpr ⟨types, classes, rfl⟩, ?_⟩
    exact tells_of_classes classes known member (remark t.enums) List.mem_cons_self rfl

/-- The numbers of the enums of a finished schema agree wherever they stand: each table lists those
of its enum once, with their first names, while no other table can take identifiers; and a default
that is a number leads to a row, the name in which is shown in the helper files. -/
theorem showsRows_of_finished (finished : s.Finished) : ∃ script, init s = .ok script ∧
    (∀ e ∈ s.enums, ListsValues script e) ∧ SwitchesOneByOne script ∧
      ∀ i ∈ s.itemTypes, ∀ p ∈ i.properties, ∀ number,
        p.default = some (.literal (.enumeration number)) →
          ∃ e name, ShowsRow s script i p number e name := by
  obtain ⟨d, sound, complete, rfl⟩ := finished.drafts
  have valid := sound.valid complete
  obtain ⟨script, made⟩ := succeeds_init valid
  refine ⟨script, made, fun e known => listsValues_init sound.named made known,
    switchesOneByOne_init made, fun i known p member number declared => ?_⟩
  exact showsRow_init valid sound.named made known (sound.itemTypes i known) member declared

theorem showsRows_sample : Sample.schema.Finished ∧ ∃ script, init Sample.schema = .ok script ∧
    ∃ i ∈ Sample.schema.itemTypes,
      ShowsRow Sample.schema script i Sample.moodProperty 1 Sample.mood "Fine" := by
  obtain ⟨script, made, lists, -, shows⟩ := showsRows_of_finished Sample.schema_finished
  obtain ⟨e, name, shown⟩ := shows _ List.mem_cons_self Sample.moodProperty List.mem_cons_self 1 rfl
  cases List.mem_singleton.mp shown.enum
  have named : Sample.mood.nameOf? 1 = some name := (lists _ shown.enum).names 1 name shown.row
  cases named
  exact ⟨Sample.schema_finished, script, made, _, List.mem_cons_self, shown⟩

end LearningStore.Script
