import LearningStore.Proofs.Compile.Generation
import LearningStore.Proofs.Script.Assembly
import LearningStore.Proofs.Script.Creation

/-!
# What a stored document says

A stored document is read strictly: every element of the document is one of the schema, in
the place where it belongs, and has the attributes that it has to have and no others.  What
is read from the document of a schema is the schema, as far as a store has to know it.
-/

namespace LearningStore.Script

open LearningStore.Schema
open LearningStore.Text
open LearningStore.Value
open LearningStore.Xml

/-! ## The stored part of a schema -/

/-- What a member refers to. -/
inductive StoredReference where
  | itemType (name : String)
  | enum (name : String)
deriving DecidableEq, Repr

structure StoredProperty where
  name : String
  typeCode : Int
  nullable : Bool
  hasDefault : Bool
  reference : Option StoredReference
deriving DecidableEq, Repr

/-- A column or a parameter. -/
structure StoredMember where
  name : String
  typeCode : Int
  nullable : Bool
  reference : Option StoredReference
deriving DecidableEq, Repr

structure StoredItemType where
  name : String
  viewFunction : String
  guards : List (ItemRight × String)
  properties : List StoredProperty
deriving DecidableEq, Repr

structure StoredEnum where
  name : String
  values : List (String × Int)
deriving DecidableEq, Repr

structure StoredView where
  name : String
  function : String
  securityFunction : Option String
  columns : List StoredMember
  parameters : List StoredMember
deriving DecidableEq, Repr

structure StoredRight where
  name : String
  securityFunction : Option String
  parameters : List StoredMember
deriving DecidableEq, Repr

structure StoredSchema where
  itemTypes : List StoredItemType
  enums : List StoredEnum
  views : List StoredView
  rights : List StoredRight
deriving DecidableEq, Repr

namespace StoredReference

/-- What a member of a schema refers to. -/
def ofMember (m : Member) : Option StoredReference :=
  match m.itemTypeName, m.enumName with
  | some name, _ => some (.itemType name)
  | none, some name => some (.enum name)
  | none, none => none

end StoredReference

namespace StoredProperty

def ofProperty (p : Property) : StoredProperty :=
  ⟨p.name, p.valueType.typeCode, p.nullable, p.default.isSome,
    StoredReference.ofMember p.toMember⟩

end StoredProperty

namespace StoredMember

/-- Columns and parameters may always be null. -/
def ofMember (m : Member) : StoredMember :=
  ⟨m.name, m.valueType.typeCode, true, StoredReference.ofMember m⟩

end StoredMember

namespace StoredItemType

def ofItemType (i : ItemType) : StoredItemType :=
  ⟨i.name, i.defaultViewFunction,
    recordedRights.filterMap fun right =>
      (i.securityFunction? right).map fun function => (right, function),
    i.properties.map StoredProperty.ofProperty⟩

end StoredItemType

namespace StoredEnum

def ofEnum (e : EnumType) : StoredEnum :=
  ⟨e.name, e.values.map fun v => (v.name, v.value)⟩

end StoredEnum

namespace StoredView

def ofView (v : View) : StoredView :=
  ⟨v.name, v.name, v.securityFunction?, v.columns.map fun c => .ofMember c.toMember,
    v.parameters.map fun p => .ofMember p.toMember⟩

end StoredView

namespace StoredRight

def ofRight (r : Right) : StoredRight :=
  ⟨r.name, r.securityFunction?, r.parameters.map fun p => .ofMember p.toMember⟩

end StoredRight

namespace StoredSchema

def ofSchema (s : Schema) : StoredSchema :=
  ⟨s.itemTypes.map .ofItemType, s.enums.map .ofEnum, s.views.map .ofView,
    s.rights.map .ofRight⟩

end StoredSchema

/-! ## Reading -/

def integer? (text : String) : Option Int :=
  Integer.signed? text.toList

def boolean? : String → Option Bool
  | "true" => some true
  | "false" => some false
  | _ => none

/-- The right whose security function an attribute records. -/
def rightOf? (key : String) : Option ItemRight :=
  recordedRights.find? fun right => securityAttribute right == key

/-- The reference that may stand behind the other attributes of a member. -/
def reference? : List (String × String) → Option (Option StoredReference)
  | [] => some none
  | [("ReferencedItemTypeName", name)] => some (some (.itemType name))
  | [("EnumName", name)] => some (some (.enum name))
  | _ => none

/-- The guard that may stand behind the other attributes of a view or a right. -/
def guard? : List (String × String) → Option (Option String)
  | [] => some none
  | [("SecurityFunction", name)] => some (some name)
  | _ => none

namespace StoredProperty

def ofMarkup? : Markup → Option StoredProperty
  | ⟨"Property", ("Name", name) :: ("TypeCode", code) :: ("Nullable", nullable) ::
      ("HasDefault", hasDefault) :: reference⟩ => do
      some ⟨name, ← integer? code, ← boolean? nullable, ← boolean? hasDefault,
        ← reference? reference⟩
  | _ => none

end StoredProperty

namespace StoredMember

def ofMarkup? (element : String) : Markup → Option StoredMember
  | ⟨tag, ("Name", name) :: ("TypeCode", code) :: ("Nullable", nullable) :: reference⟩ => do
      guard (tag = element)
      some ⟨name, ← integer? code, ← boolean? nullable, ← reference? reference⟩
  | _ => none

end StoredMember

namespace StoredItemType

def ofRecord? : Record → Option StoredItemType
  | ⟨⟨"ItemType", ("Name", name) :: ("ViewFunction", viewFunction) :: guards⟩, members⟩ => do
      some ⟨name, viewFunction,
        ← guards.mapM fun a => (rightOf? a.1).map fun right => (right, a.2),
        ← members.mapM StoredProperty.ofMarkup?⟩
  | _ => none

end StoredItemType

namespace StoredEnum

def value? : Markup → Option (String × Int)
  | ⟨"Value", [("Name", name), ("Value", value)]⟩ => (integer? value).map fun n => (name, n)
  | _ => none

def ofRecord? : Record → Option StoredEnum
  | ⟨⟨"Enum", [("Name", name)]⟩, members⟩ => (members.mapM value?).map fun vs => ⟨name, vs⟩
  | _ => none

end StoredEnum

/-- The tags of one name at the front of a list, and those behind them. -/
def splitTags (element : String) (ms : List Markup) : List Markup × List Markup :=
  (ms.takeWhile fun m => m.name == element, ms.dropWhile fun m => m.name == element)

namespace StoredView

def ofRecord? : Record → Option StoredView
  | ⟨⟨"View", ("Name", name) :: ("Function", function) :: guard⟩, members⟩ => do
      some ⟨name, function, ← guard? guard,
        ← (splitTags "Column" members).1.mapM (StoredMember.ofMarkup? "Column"),
        ← (splitTags "Column" members).2.mapM (StoredMember.ofMarkup? "Parameter")⟩
  | _ => none

end StoredView

namespace StoredRight

def ofRecord? : Record → Option StoredRight
  | ⟨⟨"Right", ("Name", name) :: guard⟩, members⟩ => do
      some ⟨name, ← guard? guard, ← members.mapM (StoredMember.ofMarkup? "Parameter")⟩
  | _ => none

end StoredRight

namespace StoredSchema

/-- The schema of a list of records, which have to be in the order of their kinds. -/
def ofRecords? (rs : List Record) : Option StoredSchema := do
  guard (rs = recordsNamed "ItemType" rs ++ recordsNamed "Enum" rs ++ recordsNamed "View" rs ++
    recordsNamed "Right" rs)
  some ⟨← (recordsNamed "ItemType" rs).mapM StoredItemType.ofRecord?,
    ← (recordsNamed "Enum" rs).mapM StoredEnum.ofRecord?,
    ← (recordsNamed "View" rs).mapM StoredView.ofRecord?,
    ← (recordsNamed "Right" rs).mapM StoredRight.ofRecord?⟩

/-- The schema that an element says. -/
def ofElement? (root : Element) : Option StoredSchema :=
  (recordsOf? root).bind ofRecords?

end StoredSchema

/-! ## What is written is read -/

section Passes

variable {ε α β γ : Type}

/-- Reading the results of a pass gives what each member stands for. -/
theorem mapM_eq_some_of_mapM {f : α → Except ε β} {xs : List α} {ys : List β}
    (passed : xs.mapM f = .ok ys) {read : β → Option γ} {meaning : α → γ}
    (each : ∀ a ∈ xs, ∀ b, f a = .ok b → read b = some (meaning a)) :
    ys.mapM read = some (xs.map meaning) := by
  have results := mapM_eq_ok.mp passed
  clear passed
  induction results with
  | nil => rfl
  | cons first _ ih =>
      rw [List.mapM_cons, each _ List.mem_cons_self _ first,
        ih fun a inside => each a (List.mem_cons_of_mem _ inside)]
      rfl

theorem mapM_map_eq_some {f : α → β} {read : β → Option γ} {meaning : α → γ}
    (each : ∀ a, read (f a) = some (meaning a)) (xs : List α) :
    (xs.map f).mapM read = some (xs.map meaning) := by
  induction xs with
  | nil => rfl
  | cons a rest ih =>
      rw [List.map_cons, List.mapM_cons, each, ih]
      rfl

end Passes

@[simp] theorem integer?_integerText (n : Int) : integer? (integerText n) = some n :=
  Integer.signed?_integerText n

@[simp] theorem boolean?_booleanText (b : Bool) : boolean? (booleanText b) = some b := by
  cases b <;> rfl

theorem rightOf?_securityAttribute (right : ItemRight) :
    rightOf? (securityAttribute right) = some right := by
  cases right <;> decide

@[simp] theorem guard?_guardAttribute (function : Option String) :
    guard? (guardAttribute function) = some function := by
  cases function <;> rfl

variable {s : Schema}

/-- The attribute for a reference names what the member refers to. -/
theorem reference?_referenceAttribute {m : Member} (valid : m.Valid s)
    {reference : List (String × String)} (made : referenceAttribute s m = .ok reference) :
    reference? reference = some (StoredReference.ofMember m) := by
  unfold referenceAttribute at made
  split at made
  next type =>
    obtain ⟨i, found, rfl⟩ := map_eq_ok.mp made
    obtain ⟨name, named⟩ := Option.isSome_iff_exists.mp (valid.itemType_present.mpr type)
    obtain ⟨j, looked⟩ := valid.itemType? named
    rw [referencedItemType_eq_ok named looked] at found
    cases found
    have same : i.name = name := by simpa [Schema.itemType?] using List.find?_some looked
    simp [reference?, StoredReference.ofMember, named, same]
  next type =>
    obtain ⟨e, found, rfl⟩ := map_eq_ok.mp made
    obtain ⟨name, named⟩ := Option.isSome_iff_exists.mp (valid.enum_present.mpr type)
    obtain ⟨f, looked⟩ := valid.enum? named
    rw [referencedEnum_eq_ok named looked] at found
    cases found
    have same : e.name = name := by simpa [Schema.enum?] using List.find?_some looked
    have absent : m.itemTypeName = none := by
      rw [← Option.not_isSome_iff_eq_none, valid.itemType_present, type]
      decide
    simp [reference?, StoredReference.ofMember, named, absent, same]
  next noItemType noEnum =>
    cases made
    have first : m.itemTypeName = none := by
      rw [← Option.not_isSome_iff_eq_none, valid.itemType_present]
      exact noItemType
    have second : m.enumName = none := by
      rw [← Option.not_isSome_iff_eq_none, valid.enum_present]
      exact noEnum
    simp [reference?, StoredReference.ofMember, first, second]

theorem read_propertyMarkup {p : Property} (valid : p.Valid s) {m : Markup}
    (made : propertyMarkup s p = .ok m) :
    StoredProperty.ofMarkup? m = some (.ofProperty p) := by
  obtain ⟨reference, referred, rfl⟩ := map_eq_ok.mp made
  have read := reference?_referenceAttribute valid.member referred
  simp [StoredProperty.ofMarkup?, typeCodeAttribute, read, StoredProperty.ofProperty]

theorem name_nullableMarkup {element : String} {member : Member} {m : Markup}
    (made : nullableMarkup s element member = .ok m) : m.name = element := by
  obtain ⟨reference, -, rfl⟩ := map_eq_ok.mp made
  rfl

theorem read_nullableMarkup {element : String} {member : Member} (valid : member.Valid s)
    {m : Markup} (made : nullableMarkup s element member = .ok m) :
    StoredMember.ofMarkup? element m = some (.ofMember member) := by
  obtain ⟨reference, referred, rfl⟩ := map_eq_ok.mp made
  have read := reference?_referenceAttribute valid referred
  have nullable : boolean? "true" = some true := rfl
  simp [StoredMember.ofMarkup?, typeCodeAttribute, read, nullable, StoredMember.ofMember]

theorem read_parameterMarkups {parameters : List Parameter}
    (valid : ∀ p ∈ parameters, p.toMember.Valid s) {ms : List Markup}
    (made : parameterMarkups s parameters = .ok ms) :
    ms.mapM (StoredMember.ofMarkup? "Parameter") =
      some (parameters.map fun p => .ofMember p.toMember) :=
  mapM_eq_some_of_mapM made fun p inside _ each => read_nullableMarkup (valid p inside) each

theorem read_itemTypeRecord (valid : s.Valid) {i : ItemType} (member : i ∈ s.itemTypes)
    {r : Record} (made : itemTypeRecord s i = .ok r) :
    StoredItemType.ofRecord? r = some (.ofItemType i) := by
  obtain ⟨members, passed, rfl⟩ := map_eq_ok.mp made
  have properties := mapM_eq_some_of_mapM passed fun p inside _ each =>
    read_propertyMarkup (valid.properties i member p inside) each
  have guards (rights : List ItemRight) :
      (rights.filterMap fun right => (i.securityFunction? right).map fun function =>
        (securityAttribute right, function)).mapM
          (fun a => (rightOf? a.1).map fun right => (right, a.2)) =
      some (rights.filterMap fun right =>
        (i.securityFunction? right).map fun function => (right, function)) := by
    induction rights with
    | nil => rfl
    | cons right rest ih =>
        cases guarded : i.securityFunction? right with
        | none => simpa [guarded] using ih
        | some function => simp [guarded, rightOf?_securityAttribute, ih]
  have recorded := guards recordedRights
  simp [StoredItemType.ofRecord?, securityAttributes, recorded, properties,
    StoredItemType.ofItemType]

theorem read_enumRecord (e : EnumType) :
    StoredEnum.ofRecord? (enumRecord e) = some (.ofEnum e) := by
  have each (v : EnumValue) :
      StoredEnum.value? ⟨"Value", [("Name", v.name), ("Value", integerText v.value)]⟩ =
        some (v.name, v.value) := by
    simp [StoredEnum.value?]
  have read : StoredEnum.ofRecord? (enumRecord e) =
      ((enumRecord e).members.mapM StoredEnum.value?).map fun vs => ⟨e.name, vs⟩ := rfl
  rw [read, enumRecord, mapM_map_eq_some each]
  rfl

theorem read_viewRecord (valid : s.Valid) {v : View} (member : v ∈ s.views)
    {r : Record} (made : viewRecord s v = .ok r) :
    StoredView.ofRecord? r = some (.ofView v) := by
  obtain ⟨columns, passed, rest⟩ := bind_eq_ok.mp made
  obtain ⟨parameters, parametersMade, same⟩ := bind_eq_ok.mp rest
  cases same
  have columnsRead := mapM_eq_some_of_mapM passed fun c inside _ each =>
    read_nullableMarkup (valid.columns v member c inside) each
  have parametersRead := read_parameterMarkups (valid.view_parameters v member) parametersMade
  have columnTags : ∀ m ∈ columns, (m.name == "Column") = true :=
    forall_mem_of_mapM passed fun _ _ _ each => beq_iff_eq.mpr (name_nullableMarkup each)
  have parameterTags : ∀ m ∈ parameters, (m.name == "Column") = false :=
    forall_mem_of_mapM parametersMade fun _ _ _ each => by
      rw [name_nullableMarkup each]
      decide
  have split : splitTags "Column" (columns ++ parameters) = (columns, parameters) := by
    have first : parameters.takeWhile (fun m => m.name == "Column") = [] := by
      cases parameters with
      | nil => rfl
      | cons m rest => simp [parameterTags m List.mem_cons_self]
    have others : parameters.dropWhile (fun m => m.name == "Column") = parameters := by
      cases parameters with
      | nil => rfl
      | cons m rest => simp [parameterTags m List.mem_cons_self]
    rw [splitTags, List.takeWhile_append_of_pos columnTags,
      List.dropWhile_append_of_pos columnTags, first, others, List.append_nil]
  simp [StoredView.ofRecord?, split, columnsRead, parametersRead, StoredView.ofView]

theorem read_rightRecord (valid : s.Valid) {v : Right} (member : v ∈ s.rights)
    {r : Record} (made : rightRecord s v = .ok r) :
    StoredRight.ofRecord? r = some (.ofRight v) := by
  obtain ⟨parameters, parametersMade, rfl⟩ := map_eq_ok.mp made
  have read := read_parameterMarkups (valid.right_parameters v member) parametersMade
  simp [StoredRight.ofRecord?, read, StoredRight.ofRight]

/-- The records of a valid schema say what the schema is. -/
theorem ofRecords?_records (valid : s.Valid) {rs : List Record} (made : records s = .ok rs) :
    StoredSchema.ofRecords? rs = some (.ofSchema s) := by
  obtain ⟨itemTypes, views, rights, itemTypesMade, viewsMade, rightsMade, listed⟩ :=
    records_eq_ok made
  have kinds := recordsNamed_kinds s.enums
    (forall_mem_of_mapM itemTypesMade fun _ _ _ each => name_itemTypeRecord each)
    (forall_mem_of_mapM viewsMade fun _ _ _ each => name_viewRecord each)
    (forall_mem_of_mapM rightsMade fun _ _ _ each => name_rightRecord each)
  rw [← listed] at kinds
  have first : recordsNamed "ItemType" rs = itemTypes := by simpa using kinds "ItemType"
  have second : recordsNamed "Enum" rs = s.enums.map enumRecord := by simpa using kinds "Enum"
  have third : recordsNamed "View" rs = views := by simpa using kinds "View"
  have fourth : recordsNamed "Right" rs = rights := by simpa using kinds "Right"
  have itemTypesRead := mapM_eq_some_of_mapM itemTypesMade fun i member _ each =>
    read_itemTypeRecord valid member each
  have enumsRead := mapM_map_eq_some read_enumRecord s.enums
  have viewsRead := mapM_eq_some_of_mapM viewsMade fun v member _ each =>
    read_viewRecord valid member each
  have rightsRead := mapM_eq_some_of_mapM rightsMade fun r member _ each =>
    read_rightRecord valid member each
  rw [StoredSchema.ofRecords?, first, second, third, fourth, ← listed]
  simp [itemTypesRead, enumsRead, viewsRead, rightsRead, StoredSchema.ofSchema]

/-! ## Stored schemas -/

/-- For every finished schema the script that creates a store has statements for a document.
Running them leaves in the variable a plain ASCII text, which is a well-formed document that
says exactly what the schema is. -/
theorem stored_of_finished (h : s.Finished) :
    ∃ script rs text d, init s = .ok script ∧ .setDocument rs ∈ script ∧
      Sql.evaluate [] (renderLines (Statement.setDocument rs).lines) =
        some ([("@schema", some text)], []) ∧
      (∀ c ∈ text.toList, c.toNat < 128) ∧ Document.parse text = .ok d ∧
      StoredSchema.ofElement? d.root = some (.ofSchema s) := by
  obtain ⟨drafts, sound, complete, rfl⟩ := h.drafts
  have valid := sound.valid complete
  obtain ⟨script, made⟩ := succeeds_init valid
  obtain ⟨rs, constraints, recorded, -, rfl⟩ := init_eq_ok made
  have simple := simple_records valid recorded
  obtain ⟨d, parsed, read⟩ := parse_documentText simple
  refine ⟨_, rs, documentText rs, d, made, by simp, evaluate_documentLines rs, ?_, parsed, ?_⟩
  · exact fun c inside => toNat_lt_of_isDocumentChar (over_documentText simple c inside)
  · rw [StoredSchema.ofElement?, read, Option.bind_some, ofRecords?_records valid recorded]

theorem stored_sample : Sample.schema.Finished ∧
    ∃ script rs text d, init Sample.schema = .ok script ∧ .setDocument rs ∈ script ∧
      Sql.evaluate [] (renderLines (Statement.setDocument rs).lines) =
        some ([("@schema", some text)], []) ∧
      (∀ c ∈ text.toList, c.toNat < 128) ∧ Document.parse text = .ok d ∧
      StoredSchema.ofElement? d.root = some (.ofSchema Sample.schema) :=
  ⟨Sample.schema_finished, stored_of_finished Sample.schema_finished⟩

end LearningStore.Script
