import LearningStore.Proofs.Compile.Generation

/-!
# What artifacts do not depend on

An artifact reads some parts of a schema and not others.  Two schemas that differ only in parts
which an artifact does not read have the same artifact: documentation never reaches a script,
what concerns tables alone never reaches an upgrade, and no SQL reaches a helper file.
-/

namespace LearningStore

open LearningStore.Schema
open LearningStore.Value

/-! ## Parts of schemas -/

namespace Schema

/-! Without documentation, and without the mark of what the base schema declares. -/

def EnumValue.undocumented (v : EnumValue) : EnumValue :=
  { v with documentation := none }

def EnumType.undocumented (e : EnumType) : EnumType :=
  { e with values := e.values.map EnumValue.undocumented, documentation := {}, inBase := false }

def Property.undocumented (p : Property) : Property :=
  { p with documentation := {}, inBase := false }

def Column.undocumented (c : Column) : Column :=
  { c with documentation := {}, inBase := false }

def Parameter.undocumented (p : Parameter) : Parameter :=
  { p with documentation := {}, inBase := false }

def ItemType.undocumented (i : ItemType) : ItemType :=
  { i with
    properties := i.properties.map Property.undocumented, documentation := {}, inBase := false }

def View.undocumented (v : View) : View :=
  { v with
    columns := v.columns.map Column.undocumented
    parameters := v.parameters.map Parameter.undocumented
    documentation := {}, inBase := false }

def Right.undocumented (r : Right) : Right :=
  { r with
    parameters := r.parameters.map Parameter.undocumented, documentation := {}, inBase := false }

/-- The schema without its documentation texts and without the marks of the base schema. -/
def undocumented (s : Schema) : Schema :=
  { s with
    enums := s.enums.map EnumType.undocumented
    itemTypes := s.itemTypes.map ItemType.undocumented
    views := s.views.map View.undocumented
    rights := s.rights.map Right.undocumented }

/-! Without what only tables, keys, indexes and snippets are made of. -/

def EnumType.tableless (e : EnumType) : EnumType :=
  { e with values := [] }

def Property.tableless (p : Property) : Property :=
  { p with
    nullable := false, cascadeDelete := false, rowGuid := false, itemTypeName := none
    enumName := none, constraints := [] }

def ItemType.tableless (i : ItemType) : ItemType :=
  { i with properties := i.properties.map Property.tableless, indexes := [], sqlAfter := [] }

/-- The schema without its snippets and indexes, without the values of its enums, and with
properties that have only names, types, lengths and defaults. -/
def tableless (s : Schema) : Schema :=
  { s with
    enums := s.enums.map EnumType.tableless
    itemTypes := s.itemTypes.map ItemType.tableless
    sqlBefore := [], sqlAfter := [] }

/-! Without what is only written into scripts. -/

def Property.withoutSql (p : Property) : Property :=
  { p with rowGuid := false, constraints := [] }

def ItemType.withoutSql (i : ItemType) : ItemType :=
  { i with
    properties := i.properties.map Property.withoutSql
    queryExpressions := [], addExpressions := [], updateExpressions := []
    deleteExpressions := [], indexes := [], sqlAfter := [] }

def View.withoutSql (v : View) : View :=
  { v with implementation := "", expressions := [] }

def Right.withoutSql (r : Right) : Right :=
  { r with expressions := [] }

/-- The schema without grant expressions, implementations of views, indexes, constraints, marks
of row identifiers and snippets. -/
def withoutSql (s : Schema) : Schema :=
  { s with
    itemTypes := s.itemTypes.map ItemType.withoutSql
    views := s.views.map View.withoutSql
    rights := s.rights.map Right.withoutSql
    sqlBefore := [], sqlAfter := [] }

end Schema

/-! ## Lookups by name -/

section Lookup

variable {s t : Schema} {m n : Member}

/-- The result of a lookup, which fails if there is nothing. -/
def foundOr {α : Type} (e : LookupError) : Option α → Except LookupError α
  | some a => .ok a
  | none => .error e

theorem map_foundOr {α β : Type} (e : LookupError) (found : Option α) (f : α → β) :
    (foundOr e found).map f = foundOr e (found.map f) := by
  cases found <;> rfl

/-- Looking for a name among elements finds what is found among their names. -/
theorem map_find?_name {α : Type} (nameOf : α → String) (name : String) (xs : List α) :
    (xs.find? fun a => nameOf a == name).map nameOf = (xs.map nameOf).find? (· == name) := by
  rw [List.find?_map]
  rfl

/-- The name of the item type that a member refers to depends on names alone. -/
theorem name_referencedItemType (s : Schema) (m : Member) :
    (s.referencedItemType m).map ItemType.name = foundOr .itemType
      (m.itemTypeName.bind fun name => (s.itemTypes.map ItemType.name).find? (· == name)) := by
  have looked : s.referencedItemType m = foundOr .itemType (m.itemTypeName.bind s.itemType?) := by
    unfold referencedItemType
    cases m.itemTypeName.bind s.itemType? <;> rfl
  rw [looked, map_foundOr, Option.map_bind]
  exact congrArg _ (congrArg _ (funext fun name => map_find?_name _ name _))

/-- The name of the enum that a member refers to depends on names alone. -/
theorem name_referencedEnum (s : Schema) (m : Member) :
    (s.referencedEnum m).map EnumType.name = foundOr .enum
      (m.enumName.bind fun name => (s.enums.map EnumType.name).find? (· == name)) := by
  have looked : s.referencedEnum m = foundOr .enum (m.enumName.bind s.enum?) := by
    unfold referencedEnum
    cases m.enumName.bind s.enum? <;> rfl
  rw [looked, map_foundOr, Option.map_bind]
  exact congrArg _ (congrArg _ (funext fun name => map_find?_name _ name _))

/-- Schemas that declare the same names. -/
structure SameNames (s t : Schema) : Prop where
  enums : s.enums.map EnumType.name = t.enums.map EnumType.name
  itemTypes : s.itemTypes.map ItemType.name = t.itemTypes.map ItemType.name

/-- Members of the same type that refer to the same names. -/
structure SameReference (m n : Member) : Prop where
  valueType : m.valueType = n.valueType
  itemTypeName : m.itemTypeName = n.itemTypeName
  enumName : m.enumName = n.enumName

theorem map_referencedItemType {α : Type} (names : SameNames s t) (refers : SameReference m n)
    (f : String → α) : (s.referencedItemType m).map (fun i => f i.name) =
      (t.referencedItemType n).map fun i => f i.name := by
  have factor (x : Except LookupError ItemType) :
      x.map (fun i => f i.name) = (x.map ItemType.name).map f := by
    cases x <;> rfl
  rw [factor, factor, name_referencedItemType, name_referencedItemType, names.itemTypes,
    refers.itemTypeName]

theorem map_referencedEnum {α : Type} (names : SameNames s t) (refers : SameReference m n)
    (f : String → α) : (s.referencedEnum m).map (fun e => f e.name) =
      (t.referencedEnum n).map fun e => f e.name := by
  have factor (x : Except LookupError EnumType) :
      x.map (fun e => f e.name) = (x.map EnumType.name).map f := by
    cases x <;> rfl
  rw [factor, factor, name_referencedEnum, name_referencedEnum, names.enums, refers.enumName]

end Lookup

/-- A pass over changed members is one over the members if no step sees the change. -/
theorem mapM_map_of_forall {ε α β γ : Type} {change : α → β} {f : β → Except ε γ}
    {g : α → Except ε γ} (unseen : ∀ a, f (change a) = g a) (xs : List α) :
    (xs.map change).mapM f = xs.mapM g := by
  induction xs with
  | nil => rfl
  | cons a rest ih => rw [List.map_cons, List.mapM_cons, List.mapM_cons, unseen, ih]

/-! ## Scripts -/

namespace Script

section Reference

variable {s t : Schema} {m n : Member}

theorem referenceAttribute_congr (names : SameNames s t) (refers : SameReference m n) :
    referenceAttribute s m = referenceAttribute t n := by
  unfold referenceAttribute
  rw [refers.valueType]
  split
  next => exact map_referencedItemType names refers fun name => [("ReferencedItemTypeName", name)]
  next => exact map_referencedEnum names refers fun name => [("EnumName", name)]
  next => rfl

theorem nullableMarkup_congr (names : SameNames s t) (refers : SameReference m n)
    (named : m.name = n.name) (element : String) :
    nullableMarkup s element m = nullableMarkup t element n := by
  rw [nullableMarkup, nullableMarkup, referenceAttribute_congr names refers, typeCodeAttribute,
    typeCodeAttribute, refers.valueType, named]

end Reference

/-! ### Functions of item types -/

/-- The parameter for a property: what functions know of it. -/
def propertyParameter (p : Property) : FunctionParameter :=
  ⟨p.name, p.sqlType, p.default⟩

/-- Item types with the same functions. -/
structure SameFunctions (i j : ItemType) : Prop where
  name : i.name = j.name
  expressions : ∀ right, i.expressions right = j.expressions right
  parameters : i.properties.map propertyParameter = j.properties.map propertyParameter

theorem itemRightParameters_update (i : ItemType) : itemRightParameters i .update =
    idParameter :: (i.properties.map propertyParameter).flatMap fun p =>
      [⟨p.name ++ "$Changed", "bit", none⟩, ⟨p.name, p.type, none⟩] := by
  rw [List.flatMap_map]
  rfl

theorem defaultViewFunction_eq (i : ItemType) : defaultViewFunction i =
    ⟨"Create the default view of " ++ i.name, ⟨i.defaultViewFunction, [],
      .everyRow ((i.properties.map propertyParameter).map FunctionParameter.name) i.name⟩⟩ := by
  rw [List.map_map]
  rfl

namespace SameFunctions

variable {i j : ItemType} (h : SameFunctions i j)

include h

theorem parameters_eq (right : ItemRight) :
    itemRightParameters i right = itemRightParameters j right := by
  cases right with
  | query | delete => rfl
  | add => exact h.parameters
  | update => rw [itemRightParameters_update, itemRightParameters_update, h.parameters]

theorem guard_eq (right : ItemRight) :
    i.securityFunction? right = j.securityFunction? right := by
  rw [ItemType.securityFunction?, ItemType.securityFunction?, h.expressions, h.name]

theorem function_eq (right : ItemRight) :
    itemRightFunction i right = itemRightFunction j right := by
  have purpose : itemRightPurpose i right = itemRightPurpose j right := by
    unfold itemRightPurpose
    rw [h.name]
  rw [itemRightFunction, itemRightFunction, h.guard_eq, purpose, h.parameters_eq, h.expressions]

theorem defaultView_eq : defaultViewFunction i = defaultViewFunction j := by
  rw [defaultViewFunction_eq, defaultViewFunction_eq, h.parameters, ItemType.defaultViewFunction,
    ItemType.defaultViewFunction, h.name]

theorem attributes_eq : securityAttributes i = securityAttributes j :=
  List.filterMap_congr fun right _ => by rw [h.guard_eq]

end SameFunctions

/-- Changes of item types that keep their functions keep those of the schema. -/
theorem functions_congr {s t : Schema} {change : ItemType → ItemType}
    (itemTypes : t.itemTypes = s.itemTypes.map change)
    (kept : ∀ i, SameFunctions (change i) i)
    (views : t.views.flatMap (fun v => viewFunction v :: viewSecurityFunction v) =
      s.views.flatMap fun v => viewFunction v :: viewSecurityFunction v)
    (rights : t.rights.flatMap rightSecurityFunction = s.rights.flatMap rightSecurityFunction)
    (withDefaultViews : Bool) : functions t withDefaultViews = functions s withDefaultViews := by
  rw [functions, functions, itemTypes, List.flatMap_map, List.flatMap_map, views, rights]
  simp only [(kept _).function_eq, (kept _).defaultView_eq]

/-! ### Documentation -/

section Undocumented

variable (s : Schema)

theorem sameNames_undocumented : SameNames s.undocumented s :=
  ⟨List.map_map, List.map_map⟩

theorem propertyMarkup_undocumented (p : Property) :
    propertyMarkup s.undocumented p.undocumented = propertyMarkup s p := by
  have reference : referenceAttribute s.undocumented p.undocumented.toMember =
      referenceAttribute s p.toMember :=
    referenceAttribute_congr (sameNames_undocumented s) ⟨rfl, rfl, rfl⟩
  rw [propertyMarkup, reference]
  rfl

theorem parameterMarkups_undocumented (ps : List Parameter) :
    parameterMarkups s.undocumented (ps.map Parameter.undocumented) = parameterMarkups s ps :=
  mapM_map_of_forall (f := fun p : Parameter => nullableMarkup s.undocumented "Parameter" p.toMember)
    (fun _ => nullableMarkup_congr (sameNames_undocumented s) ⟨rfl, rfl, rfl⟩ rfl "Parameter") ps

theorem itemTypeRecord_undocumented (i : ItemType) :
    itemTypeRecord s.undocumented i.undocumented = itemTypeRecord s i := by
  have members := mapM_map_of_forall (propertyMarkup_undocumented s) i.properties
  rw [itemTypeRecord, ItemType.undocumented, members]
  rfl

theorem enumRecord_undocumented (e : EnumType) : enumRecord e.undocumented = enumRecord e := by
  rw [enumRecord, EnumType.undocumented, List.map_map]
  rfl

theorem viewRecord_undocumented (v : View) :
    viewRecord s.undocumented v.undocumented = viewRecord s v := by
  have columns : (v.columns.map Column.undocumented).mapM
      (fun c => nullableMarkup s.undocumented "Column" c.toMember) =
        v.columns.mapM fun c => nullableMarkup s "Column" c.toMember :=
    mapM_map_of_forall (f := fun c : Column => nullableMarkup s.undocumented "Column" c.toMember)
      (fun _ => nullableMarkup_congr (sameNames_undocumented s) ⟨rfl, rfl, rfl⟩ rfl "Column")
      v.columns
  rw [viewRecord, View.undocumented, columns, parameterMarkups_undocumented]
  rfl

theorem rightRecord_undocumented (r : Right) :
    rightRecord s.undocumented r.undocumented = rightRecord s r := by
  rw [rightRecord, Right.undocumented, parameterMarkups_undocumented]
  rfl

theorem viewRecords_undocumented :
    s.undocumented.views.mapM (viewRecord s.undocumented) = s.views.mapM (viewRecord s) :=
  mapM_map_of_forall (viewRecord_undocumented s) s.views

theorem rightRecords_undocumented :
    s.undocumented.rights.mapM (rightRecord s.undocumented) = s.rights.mapM (rightRecord s) :=
  mapM_map_of_forall (rightRecord_undocumented s) s.rights

theorem records_undocumented : records s.undocumented = records s := by
  have itemTypes : s.undocumented.itemTypes.mapM (itemTypeRecord s.undocumented) =
      s.itemTypes.mapM (itemTypeRecord s) :=
    mapM_map_of_forall (itemTypeRecord_undocumented s) s.itemTypes
  have enums : s.undocumented.enums.map enumRecord = s.enums.map enumRecord := by
    rw [undocumented, List.map_map]
    exact List.map_congr_left fun e _ => enumRecord_undocumented e
  rw [records, itemTypes, viewRecords_undocumented, rightRecords_undocumented, enums]
  rfl

theorem foreignKey_undocumented (i : ItemType) (p : Property) :
    ForeignKey.ofProperty s.undocumented i.undocumented p.undocumented =
      ForeignKey.ofProperty s i p := by
  have names := sameNames_undocumented s
  have refers : SameReference p.undocumented.toMember p.toMember := ⟨rfl, rfl, rfl⟩
  have type : p.undocumented.valueType = p.valueType := rfl
  unfold ForeignKey.ofProperty
  rw [type]
  split
  next =>
    exact map_referencedItemType names refers fun name =>
      [(⟨i.name, p.name, name, p.cascadeDelete⟩ : ForeignKey)]
  next =>
    exact map_referencedEnum names refers fun name =>
      [(⟨i.name, p.name, name, false⟩ : ForeignKey)]
  next => rfl

theorem constraintsAndIndexes_undocumented (i : ItemType) :
    constraintsAndIndexes s.undocumented i.undocumented = constraintsAndIndexes s i := by
  have keys : (i.properties.map Property.undocumented).mapM
      (ForeignKey.ofProperty s.undocumented i.undocumented) =
        i.properties.mapM (ForeignKey.ofProperty s i) :=
    mapM_map_of_forall (foreignKey_undocumented s i) i.properties
  have properties : i.undocumented.properties = i.properties.map Property.undocumented := rfl
  rw [constraintsAndIndexes, foreignKeys, properties, keys]
  rfl

theorem enumTable_undocumented (e : EnumType) : enumTable e.undocumented = enumTable e := by
  have rows (seen : List Int) (values : List EnumValue) :
      enumRows seen (values.map EnumValue.undocumented) = enumRows seen values := by
    induction values generalizing seen with
    | nil => rfl
    | cons v rest ih =>
        rw [List.map_cons, enumRows, enumRows, ih, ih]
        rfl
  rw [enumTable, enumInserts, EnumType.undocumented, rows, List.isEmpty_map]
  rfl

theorem itemTypeTable_undocumented (i : ItemType) :
    itemTypeTable i.undocumented = itemTypeTable i := by
  rw [itemTypeTable, ItemType.undocumented, List.map_map]
  rfl

theorem sameFunctions_undocumented (i : ItemType) : SameFunctions i.undocumented i :=
  ⟨rfl, fun right => by cases right <;> rfl, List.map_map⟩

theorem functions_undocumented (withDefaultViews : Bool) :
    functions s.undocumented withDefaultViews = functions s withDefaultViews := by
  have parameters (ps : List Parameter) :
      nullableParameters (ps.map Parameter.undocumented) = nullableParameters ps :=
    List.map_map
  have view (v : View) : viewFunction v.undocumented :: viewSecurityFunction v.undocumented =
      viewFunction v :: viewSecurityFunction v := by
    rw [viewFunction, viewSecurityFunction, View.undocumented, parameters]
    rfl
  have right (r : Right) : rightSecurityFunction r.undocumented = rightSecurityFunction r := by
    rw [rightSecurityFunction, Right.undocumented, parameters]
    rfl
  refine functions_congr rfl sameFunctions_undocumented ?_ ?_ withDefaultViews
  · rw [undocumented, List.flatMap_map]
    exact List.flatMap_congr fun v _ => view v
  · rw [undocumented, List.flatMap_map]
    exact List.flatMap_congr fun r _ => right r

/-- What documentation says, and what is marked as declared by the base schema, reaches no
script. -/
theorem init_undocumented : init s.undocumented = init s := by
  have constraints : s.undocumented.itemTypes.mapM (constraintsAndIndexes s.undocumented) =
      s.itemTypes.mapM (constraintsAndIndexes s) :=
    mapM_map_of_forall (constraintsAndIndexes_undocumented s) s.itemTypes
  have enums : s.undocumented.enums.flatMap enumTable = s.enums.flatMap enumTable := by
    rw [undocumented, List.flatMap_map]
    exact List.flatMap_congr fun e _ => enumTable_undocumented e
  have itemTypes : s.undocumented.itemTypes.flatMap itemTypeTable =
      s.itemTypes.flatMap itemTypeTable := by
    rw [undocumented, List.flatMap_map]
    exact List.flatMap_congr fun i _ => itemTypeTable_undocumented i
  have after : s.undocumented.itemTypes.flatMap (fun i => i.sqlAfter) =
      s.itemTypes.flatMap fun i => i.sqlAfter := by
    rw [undocumented, List.flatMap_map]
    rfl
  rw [init, records_undocumented, constraints, enums, itemTypes, after, createFunctions,
    functions_undocumented]
  rfl

theorem insertGuards_congr {s t : Schema} {change : ItemType → ItemType}
    (itemTypes : t.itemTypes = s.itemTypes.map change)
    (kept : ∀ i, SameFunctions (change i) i) : insertGuards t = insertGuards s := by
  rw [insertGuards, insertGuards, itemTypes, List.flatMap_map]
  refine List.flatMap_congr fun i _ => ?_
  rw [(kept i).attributes_eq, (kept i).name]

theorem upgrade_undocumented : upgrade s.undocumented = upgrade s := by
  have guards : insertGuards s.undocumented = insertGuards s :=
    insertGuards_congr rfl sameFunctions_undocumented
  rw [upgrade, replaceDocument, viewRecords_undocumented, rightRecords_undocumented, guards,
    createFunctions, functions_undocumented]
  rfl

end Undocumented

/-! ### Tables -/

theorem sameNames_tableless (s : Schema) : SameNames s.tableless s :=
  ⟨List.map_map, List.map_map⟩

theorem sameFunctions_tableless (i : ItemType) : SameFunctions i.tableless i :=
  ⟨rfl, fun right => by cases right <;> rfl, List.map_map⟩

/-- An upgrade leaves tables alone, so nothing that only they are made of reaches it. -/
theorem upgrade_tableless (s : Schema) : upgrade s.tableless = upgrade s := by
  have names := sameNames_tableless s
  have markup (element : String) (m : Member) :
      nullableMarkup s.tableless element m = nullableMarkup s element m :=
    nullableMarkup_congr names ⟨rfl, rfl, rfl⟩ rfl element
  have views : viewRecord s.tableless = viewRecord s := by
    funext v
    simp only [viewRecord, parameterMarkups, markup]
  have rights : rightRecord s.tableless = rightRecord s := by
    funext r
    simp only [rightRecord, parameterMarkups, markup]
  have guards : insertGuards s.tableless = insertGuards s :=
    insertGuards_congr rfl sameFunctions_tableless
  have functions : functions s.tableless false = functions s false :=
    functions_congr (t := s.tableless) rfl sameFunctions_tableless rfl rfl false
  rw [upgrade, replaceDocument, views, rights, guards, createFunctions, functions]
  rfl

end Script

/-! ## Helper files -/

namespace Helper

variable (s : Schema)

theorem typeDescription_withoutSql (places : EnumPlaces) (m : Member) (maxLength : Option Int) :
    typeDescription s.withoutSql places m maxLength = typeDescription s places m maxLength := by
  have names : SameNames s.withoutSql s := ⟨rfl, List.map_map⟩
  unfold typeDescription
  split
  next => rfl
  next =>
    exact map_referencedItemType names ⟨rfl, rfl, rfl⟩ fun name =>
      m.valueType.docDescription maxLength (some name)
  next => rfl

theorem propertyComment_withoutSql (places : EnumPlaces) (p : Property) :
    propertyComment s.withoutSql places p.withoutSql = propertyComment s places p := by
  have description : typeDescription s.withoutSql places p.withoutSql.toMember
      p.withoutSql.maxLength = typeDescription s places p.toMember p.maxLength :=
    typeDescription_withoutSql s places p.toMember p.maxLength
  rw [propertyComment, description]
  rfl

theorem itemTypeComment_withoutSql (i : ItemType) :
    itemTypeComment i.withoutSql = itemTypeComment i := by
  rw [itemTypeComment, ItemType.withoutSql, List.map_map]
  rfl

namespace Setting

variable (t : Setting)

/-- The setting for the schema without its SQL. -/
def withoutSql : Setting :=
  { t with schema := t.schema.withoutSql }

theorem itemTypeClass_withoutSql (i : ItemType) :
    t.withoutSql.itemTypeClass i.withoutSql = t.itemTypeClass i := by
  have constants (p : Property) :
      t.withoutSql.propertyConstants i.withoutSql p.withoutSql = t.propertyConstants i p := by
    have comment : propertyComment t.withoutSql.schema t.withoutSql.enums p.withoutSql =
        propertyComment t.schema t.enums p :=
      propertyComment_withoutSql t.schema t.enums p
    rw [propertyConstants, comment]
    rfl
  have properties : i.withoutSql.properties = i.properties.map Property.withoutSql := rfl
  rw [itemTypeClass, properties, mapM_map_of_forall constants, itemTypeComment_withoutSql]
  rfl

theorem parameterConstant_withoutSql : t.withoutSql.parameterConstant = t.parameterConstant := by
  have description (p : Parameter) :
      typeDescription t.withoutSql.schema t.withoutSql.enums p.toMember none =
        typeDescription t.schema t.enums p.toMember none :=
    typeDescription_withoutSql t.schema t.enums p.toMember none
  funext entity p
  rw [parameterConstant, parameterComment, description]
  rfl

theorem viewClass_withoutSql (v : View) : t.withoutSql.viewClass v.withoutSql = t.viewClass v := by
  have column (c : Column) : t.withoutSql.columnConstant v.withoutSql c = t.columnConstant v c := by
    have description : typeDescription t.withoutSql.schema t.withoutSql.enums c.toMember none =
        typeDescription t.schema t.enums c.toMember none :=
      typeDescription_withoutSql t.schema t.enums c.toMember none
    rw [columnConstant, columnComment, description]
    rfl
  have columns : t.withoutSql.columnConstant v.withoutSql = t.columnConstant v := funext column
  rw [viewClass, columns, parameterConstant_withoutSql]
  rfl

theorem rightClass_withoutSql (r : Right) :
    t.withoutSql.rightClass r.withoutSql = t.rightClass r := by
  rw [rightClass, parameterConstant_withoutSql]
  rfl

/-- The classes of a helper file are made of names, types, lengths, defaults and
documentation. -/
theorem classes_withoutSql : t.withoutSql.classes = t.classes := by
  have itemTypes : t.withoutSql.schema.itemTypes.mapM t.withoutSql.itemTypeClass =
      t.schema.itemTypes.mapM t.itemTypeClass :=
    mapM_map_of_forall t.itemTypeClass_withoutSql t.schema.itemTypes
  have views : t.withoutSql.schema.views.mapM t.withoutSql.viewClass =
      t.schema.views.mapM t.viewClass :=
    mapM_map_of_forall t.viewClass_withoutSql t.schema.views
  have rights : t.withoutSql.schema.rights.mapM t.withoutSql.rightClass =
      t.schema.rights.mapM t.rightClass :=
    mapM_map_of_forall t.rightClass_withoutSql t.schema.rights
  rw [classes, itemTypes, views, rights]
  rfl

end Setting

variable (names : HelperNamespaces)

theorem componentsHelper_withoutSql :
    componentsHelper s.withoutSql names = componentsHelper s names := by
  have each (i : ItemType) : i.withoutSql.properties.flatMap lengthConstant =
      i.properties.flatMap lengthConstant :=
    List.flatMap_map ..
  have all : lengths s.withoutSql = lengths s := by
    rw [lengths, Schema.withoutSql, List.map_map]
    simp only [Function.comp_def, each]
    rfl
  rw [componentsHelper, all]
  rfl

theorem storageHelper_withoutSql : storageHelper s.withoutSql names = storageHelper s names := by
  have setting : Setting.ofBase s.withoutSql names = (Setting.ofBase s names).withoutSql := rfl
  have identifiers : s.withoutSql.itemTypes.map (identifierClass names.baseSchema) =
      s.itemTypes.map (identifierClass names.baseSchema) :=
    List.map_map
  rw [storageHelper, setting, Setting.classes_withoutSql, identifiers]
  rfl

theorem derivedHelper_withoutSql (enumNamespace schemaNamespace : String) :
    derivedHelper s.withoutSql names enumNamespace schemaNamespace =
      derivedHelper s names enumNamespace schemaNamespace := by
  have setting : Setting.ofDerived s.withoutSql names enumNamespace =
      (Setting.ofDerived s names enumNamespace).withoutSql := rfl
  have identifiers : (s.withoutSql.itemTypes.filter fun i => !i.inBase).map
      (identifierClass schemaNamespace) =
        (s.itemTypes.filter fun i => !i.inBase).map (identifierClass schemaNamespace) := by
    rw [Schema.withoutSql, List.filter_map, List.map_map]
    rfl
  rw [derivedHelper, setting, Setting.classes_withoutSql, identifiers]
  rfl

end Helper

/-! ## Artifacts of two schemas -/

namespace Compile

/-- Two computations that give the same value. -/
def SameResult {ε α : Type} (x y : Except ε α) : Prop :=
  ∃ a, x = .ok a ∧ y = .ok a

theorem SameResult.of_eq {ε α : Type} {x y : Except ε α} (h : Succeeds x) (same : x = y) :
    SameResult x y := by
  obtain ⟨a, made⟩ := h
  exact ⟨a, made, same ▸ made⟩

/-- What two schemas have in common that differ only in parts of some kind.  Documentation and
the marks of the base schema reach no script.  What makes up tables alone does not reach an
upgrade either.  SQL reaches no helper file, wherever its names are put. -/
structure Independent (s t : Schema) : Prop where
  scripts : s.undocumented = t.undocumented →
    SameResult (Script.init s) (Script.init t) ∧ SameResult (Script.upgrade s) (Script.upgrade t)
  upgrades : s.undocumented.tableless = t.undocumented.tableless →
    SameResult (Script.upgrade s) (Script.upgrade t)
  helpers : s.withoutSql = t.withoutSql → ∀ names,
    Helper.componentsHelper s names = Helper.componentsHelper t names ∧
      SameResult (Helper.storageHelper s names) (Helper.storageHelper t names) ∧
      ∀ enumNamespace schemaNamespace,
        SameResult (Helper.derivedHelper s names enumNamespace schemaNamespace)
          (Helper.derivedHelper t names enumNamespace schemaNamespace)

/-- Two schemas, of which one is finished, have the artifacts in common that do not depend on
what they differ in. -/
theorem independent_of_finished {s t : Schema} (finished : s.Finished) : Independent s t := by
  have valid : s.Valid := by
    obtain ⟨d, sound, complete, rfl⟩ := finished.drafts
    exact sound.valid complete
  have upgraded := Script.succeeds_upgrade valid
  constructor
  · intro same
    refine ⟨.of_eq (Script.succeeds_init valid) ?_, .of_eq upgraded ?_⟩
    · rw [← Script.init_undocumented s, same, Script.init_undocumented]
    · rw [← Script.upgrade_undocumented s, same, Script.upgrade_undocumented]
  · intro same
    refine .of_eq upgraded ?_
    rw [← Script.upgrade_undocumented s, ← Script.upgrade_tableless, same,
      Script.upgrade_tableless, Script.upgrade_undocumented]
  · intro same names
    refine ⟨?_, .of_eq (Helper.succeeds_storageHelper names valid) ?_, fun first second =>
      .of_eq (Helper.succeeds_derivedHelper names first second valid) ?_⟩
    · rw [← Helper.componentsHelper_withoutSql s, same, Helper.componentsHelper_withoutSql]
    · rw [← Helper.storageHelper_withoutSql s, same, Helper.storageHelper_withoutSql]
    · rw [← Helper.derivedHelper_withoutSql s, same, Helper.derivedHelper_withoutSql]

namespace Sample

/-- The elements of the base file with documentation. -/
def documentedFile : List Char :=
  (Schema.Sample.opening ++
    ["<Enum Name=\"Mood\">", "<Documentation>", "<Summary>Moods</Summary>", "</Documentation>",
      "<Values>", "<Value Name=\"Fine\" ", "Value=\"1\">", "<Documentation>Well.",
      "</Documentation>", "</Value>", "</Values>", "</Enum>", "<ItemType Name=\"Pet\">",
      "<GrantAddRight>", "<Expression>@a</Expression>", "</GrantAddRight>", "<Properties>",
      "<Property Name=\"Mood\" ", "Type=\"Enum\" ", "EnumName=\"Mood\">", "<Documentation>",
      "<Remarks>How it is</Remarks>", "</Documentation>", "<Default>1</Default>", "</Property>",
      "</Properties>", "</ItemType>", "</StoreSchema>"]).flatMap String.toList

/-- The elements of the base file with other tables and with snippets. -/
def rebuiltFile : List Char :=
  (Schema.Sample.opening ++
    ["<SqlBefore>PRINT 1", "</SqlBefore>", "<Enum Name=\"Mood\">", "<Values>",
      "<Value Name=\"Fine\" ", "Value=\"1\"/>", "<Value Name=\"Low\" ", "Value=\"2\"/>",
      "</Values>", "</Enum>", "<ItemType Name=\"Pet\">", "<GrantAddRight>",
      "<Expression>@a</Expression>", "</GrantAddRight>", "<Properties>",
      "<Property Name=\"Mood\" ", "Nullable=\"true\" ", "Type=\"Enum\" ",
      "EnumName=\"Mood\">", "<Default>1</Default>", "<Constraints>", "<Constraint>UNIQUE",
      "</Constraint>", "</Constraints>", "</Property>", "</Properties>", "</ItemType>",
      "</StoreSchema>"]).flatMap String.toList

/-- The elements of the base file with other rights, an index and a constraint. -/
def guardedFile : List Char :=
  (Schema.Sample.opening ++
    ["<Enum Name=\"Mood\">", "<Values>", "<Value Name=\"Fine\" ", "Value=\"1\"/>", "</Values>",
      "</Enum>", "<ItemType Name=\"Pet\">", "<GrantDeleteRight>", "<Expression>@b</Expression>",
      "</GrantDeleteRight>", "<Properties>", "<Property Name=\"Mood\" ", "Type=\"Enum\" ",
      "EnumName=\"Mood\">", "<Default>1</Default>", "<Constraints>", "<Constraint>UNIQUE",
      "</Constraint>", "</Constraints>", "</Property>", "</Properties>", "<Indexes>",
      "<Index>CREATE INDEX", " I ON Pet(Mood)</Index>", "</Indexes>", "</ItemType>",
      "</StoreSchema>"]).flatMap String.toList

def documentedSchema : Schema :=
  ⟨[⟨"Mood", [⟨"Fine", 1, some "Well."⟩], ⟨some "Moods", none⟩, false⟩],
    [⟨"Pet", [{ Schema.Sample.moodProperty with
      documentation := ⟨none, some "How it is"⟩, inBase := false }], [], ["@a"], [], [], [], [],
      {}, false⟩], [], [], [], []⟩

def rebuiltSchema : Schema :=
  ⟨[⟨"Mood", [⟨"Fine", 1, none⟩, ⟨"Low", 2, none⟩], {}, true⟩],
    [⟨"Pet", [{ Schema.Sample.moodProperty with nullable := true, constraints := ["UNIQUE"] }],
      [], ["@a"], [], [], [], [], {}, true⟩], [], [], ["PRINT 1"], []⟩

def guardedSchema : Schema :=
  ⟨[Schema.Sample.mood],
    [⟨"Pet", [{ Schema.Sample.moodProperty with constraints := ["UNIQUE"] }], [], [], [], ["@b"],
      ["CREATE INDEX I ON Pet(Mood)"], [], {}, true⟩], [], [], [], []⟩

theorem documentedSchema_finished : documentedSchema.Finished :=
  finished_of_schemaOf? documentedFile "documented.xml" false
    (schemaOf?_of_spelledOut (by repeat constructor) (by decide +kernel))

theorem rebuiltSchema_finished : rebuiltSchema.Finished :=
  finished_of_schemaOf? rebuiltFile "rebuilt.xml" true
    (schemaOf?_of_spelledOut (by repeat constructor) (by decide +kernel))

theorem guardedSchema_finished : guardedSchema.Finished :=
  finished_of_schemaOf? guardedFile "guarded.xml" true
    (schemaOf?_of_spelledOut (by repeat constructor) (by decide +kernel))

end Sample

/-- Three schemas that are all different from a fourth, each in parts of one kind. -/
theorem independent_sample : Schema.Sample.baseSchema.Finished ∧
    (Sample.documentedSchema.Finished ∧ Sample.documentedSchema ≠ Schema.Sample.baseSchema ∧
      Schema.Sample.baseSchema.undocumented = Sample.documentedSchema.undocumented ∧
      Independent Schema.Sample.baseSchema Sample.documentedSchema) ∧
    (Sample.rebuiltSchema.Finished ∧
      Schema.Sample.baseSchema.undocumented ≠ Sample.rebuiltSchema.undocumented ∧
      Schema.Sample.baseSchema.undocumented.tableless =
        Sample.rebuiltSchema.undocumented.tableless ∧
      Independent Schema.Sample.baseSchema Sample.rebuiltSchema) ∧
    Sample.guardedSchema.Finished ∧ Sample.guardedSchema ≠ Schema.Sample.baseSchema ∧
      Schema.Sample.baseSchema.withoutSql = Sample.guardedSchema.withoutSql ∧
      Independent Schema.Sample.baseSchema Sample.guardedSchema :=
  have finished := Schema.Sample.baseSchema_finished
  ⟨finished,
    ⟨Sample.documentedSchema_finished, by decide, by decide, independent_of_finished finished⟩,
    ⟨Sample.rebuiltSchema_finished, by decide, by decide, independent_of_finished finished⟩,
    Sample.guardedSchema_finished, by decide, by decide, independent_of_finished finished⟩

end Compile

end LearningStore
