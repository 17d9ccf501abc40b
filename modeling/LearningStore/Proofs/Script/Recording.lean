import LearningStore.Proofs.Compile.Generation
import LearningStore.Proofs.Script.Passages

/-!
# Created and recorded functions

A store drops and calls the functions that its document records, and takes a guard that is
not recorded for one that allows everything.  So what a script creates and what it records
must be the same functions, in whichever order the two parts of the script come to them.
-/

namespace LearningStore.Script

open LearningStore.Schema
open LearningStore.Text
open LearningStore.Xml

/-! ## Recorded functions -/

/-- The attributes that hold names of functions that guard something. -/
def guardKeys : List String :=
  ["ViewSecurityFunction", "AddSecurityFunction", "DeleteSecurityFunction",
    "UpdateSecurityFunction", "SecurityFunction"]

namespace Entry

def isGuard (e : Entry) : Bool :=
  guardKeys.contains e.key

def isView (e : Entry) : Bool :=
  e.element == "View" && e.key == "Function"

def isDefaultView (e : Entry) : Bool :=
  e.element == "ItemType" && e.key == "ViewFunction"

/-- Whether the attribute holds the name of some function. -/
def isFunction (e : Entry) : Bool :=
  (guardKeys ++ ["Function", "ViewFunction"]).contains e.key

theorem isFunction_of_isGuard {e : Entry} (h : e.isGuard = true) : e.isFunction = true := by
  simp only [isGuard, isFunction, List.contains_eq_mem, List.mem_append, decide_eq_true_eq]
    at h ⊢
  exact .inl h

theorem isFunction_of_isView {e : Entry} (h : e.isView = true) : e.isFunction = true := by
  simp only [isView, Bool.and_eq_true, beq_iff_eq] at h
  simp [isFunction, h.2]

theorem isFunction_of_isDefaultView {e : Entry} (h : e.isDefaultView = true) :
    e.isFunction = true := by
  simp only [isDefaultView, Bool.and_eq_true, beq_iff_eq] at h
  simp [isFunction, h.2]

end Entry

/-- The values of the chosen attributes. -/
def valuesWhere (chosen : Entry → Bool) (es : List Entry) : List String :=
  (es.filter chosen).map Entry.value

/-- The values of the chosen attributes that a script writes, in order. -/
def recorded (chosen : Entry → Bool) (script : List Statement) : List String :=
  valuesWhere chosen (written script)

/-- The attributes that record the functions of an item type. -/
def guardEntries (i : ItemType) : List Entry :=
  (securityAttributes i).map fun a => ⟨"ItemType", a.1, a.2⟩

def defaultViewEntry (i : ItemType) : Entry :=
  ⟨"ItemType", "ViewFunction", i.defaultViewFunction⟩

def viewEntries (v : View) : List Entry :=
  ⟨"View", "Function", v.name⟩ ::
    v.securityFunction?.toList.map fun name => ⟨"View", "SecurityFunction", name⟩

def rightEntries (r : Right) : List Entry :=
  r.securityFunction?.toList.map fun name => ⟨"Right", "SecurityFunction", name⟩

/-- The attributes that record the functions of a schema, element by element.  The default
views are recorded where they are created. -/
def functionEntries (s : Schema) (withDefaultViews : Bool) : List Entry :=
  s.itemTypes.flatMap (fun i =>
    (if withDefaultViews then [defaultViewEntry i] else []) ++ guardEntries i) ++
  s.views.flatMap viewEntries ++ s.rights.flatMap rightEntries

/-! ## Records of elements -/

variable {s : Schema}

/-- A tag that records no function. -/
def Plain (m : Markup) : Prop :=
  (markupEntries m).filter Entry.isFunction = []

theorem plain_of_keys {m : Markup}
    (h : ∀ a ∈ m.attributes, a.1 ∉ guardKeys ++ ["Function", "ViewFunction"]) : Plain m := by
  refine List.filter_eq_nil_iff.mpr fun e inside => ?_
  obtain ⟨a, member, rfl⟩ := List.mem_map.mp inside
  simpa [Entry.isFunction] using h a member

/-- Only the tag of the element itself records functions if its members are plain. -/
theorem filter_entries {r : Record} (plain : ∀ m ∈ r.members, Plain m) :
    r.entries.filter Entry.isFunction = (markupEntries r.markup).filter Entry.isFunction := by
  have members : (r.members.flatMap markupEntries).filter Entry.isFunction = [] := by
    rw [List.filter_flatMap, List.flatMap_eq_nil_iff]
    exact plain
  rw [Record.entries, List.filter_append, members, List.append_nil]

theorem keys_referenceAttribute {m : Member} {reference : List (String × String)}
    (made : referenceAttribute s m = .ok reference) :
    ∀ a ∈ reference, a.1 ∉ guardKeys ++ ["Function", "ViewFunction"] := by
  unfold referenceAttribute at made
  split at made
  next =>
    obtain ⟨i, -, rfl⟩ := map_eq_ok.mp made
    simp [guardKeys]
  next =>
    obtain ⟨e, -, rfl⟩ := map_eq_ok.mp made
    simp [guardKeys]
  next =>
    cases made
    simp

theorem plain_propertyMarkup {p : Property} {m : Markup} (made : propertyMarkup s p = .ok m) :
    Plain m := by
  obtain ⟨reference, referred, rfl⟩ := map_eq_ok.mp made
  refine plain_of_keys (List.forall_mem_append.mpr ⟨?_, keys_referenceAttribute referred⟩)
  simp [typeCodeAttribute, guardKeys]

theorem plain_nullableMarkup {element : String} {member : Member} {m : Markup}
    (made : nullableMarkup s element member = .ok m) : Plain m := by
  obtain ⟨reference, referred, rfl⟩ := map_eq_ok.mp made
  refine plain_of_keys (List.forall_mem_append.mpr ⟨?_, keys_referenceAttribute referred⟩)
  simp [typeCodeAttribute, guardKeys]

theorem plain_parameterMarkups {parameters : List Parameter} {ms : List Markup}
    (made : parameterMarkups s parameters = .ok ms) : ∀ m ∈ ms, Plain m :=
  forall_mem_of_mapM made fun _ _ _ each => plain_nullableMarkup each

theorem securityAttribute_mem (right : ItemRight) : securityAttribute right ∈ guardKeys := by
  cases right <;> decide

theorem key_of_mem_guardEntries {i : ItemType} {e : Entry} (h : e ∈ guardEntries i) :
    e.key ∈ guardKeys := by
  obtain ⟨a, member, rfl⟩ := List.mem_map.mp h
  obtain ⟨right, -, found⟩ := List.mem_filterMap.mp member
  obtain ⟨name, -, rfl⟩ := Option.map_eq_some_iff.mp found
  exact securityAttribute_mem right

theorem isGuard_of_mem_guardEntries {i : ItemType} {e : Entry} (h : e ∈ guardEntries i) :
    e.isGuard = true := by
  rw [Entry.isGuard, List.contains_iff_mem]
  exact key_of_mem_guardEntries h

theorem filter_guardEntries (i : ItemType) :
    (guardEntries i).filter Entry.isFunction = guardEntries i :=
  List.filter_eq_self.mpr fun _ inside =>
    Entry.isFunction_of_isGuard (isGuard_of_mem_guardEntries inside)

@[simp] theorem isFunction_name (element value : String) :
    (Entry.mk element "Name" value).isFunction = false := by
  simp [Entry.isFunction, guardKeys]

@[simp] theorem isFunction_function (element value : String) :
    (Entry.mk element "Function" value).isFunction = true := by
  simp [Entry.isFunction]

@[simp] theorem isFunction_viewFunction (element value : String) :
    (Entry.mk element "ViewFunction" value).isFunction = true := by
  simp [Entry.isFunction]

@[simp] theorem isFunction_securityFunction (element value : String) :
    (Entry.mk element "SecurityFunction" value).isFunction = true := by
  simp [Entry.isFunction, guardKeys]

/-- The record of an item type records its default view and its guards. -/
theorem filter_itemTypeRecord {i : ItemType} {r : Record} (made : itemTypeRecord s i = .ok r) :
    r.entries.filter Entry.isFunction = defaultViewEntry i :: guardEntries i := by
  obtain ⟨members, passed, rfl⟩ := map_eq_ok.mp made
  rw [filter_entries (forall_mem_of_mapM passed fun _ _ _ each => plain_propertyMarkup each)]
  have listed : markupEntries ⟨"ItemType", [("Name", i.name),
      ("ViewFunction", i.defaultViewFunction)] ++ securityAttributes i⟩ =
      ⟨"ItemType", "Name", i.name⟩ :: defaultViewEntry i :: guardEntries i := rfl
  rw [listed, List.filter_cons_of_neg (by simp), defaultViewEntry,
    List.filter_cons_of_pos (by simp), filter_guardEntries]

theorem filter_enumRecord (e : EnumType) :
    (enumRecord e).entries.filter Entry.isFunction = [] := by
  have plain : ∀ m ∈ (enumRecord e).members, Plain m := by
    intro m inside
    obtain ⟨v, -, rfl⟩ := List.mem_map.mp inside
    exact plain_of_keys (by simp [guardKeys])
  rw [filter_entries plain]
  simp [enumRecord, markupEntries]

/-- The record of a view records its function and its guard. -/
theorem filter_viewRecord {v : View} {r : Record} (made : viewRecord s v = .ok r) :
    r.entries.filter Entry.isFunction = viewEntries v := by
  obtain ⟨columns, passed, rest⟩ := bind_eq_ok.mp made
  obtain ⟨parameters, parametersMade, same⟩ := bind_eq_ok.mp rest
  cases same
  have plain : ∀ m ∈ columns ++ parameters, Plain m := List.forall_mem_append.mpr
    ⟨forall_mem_of_mapM passed fun _ _ _ each => plain_nullableMarkup each,
      plain_parameterMarkups parametersMade⟩
  rw [filter_entries plain]
  cases guard : v.securityFunction? <;>
    simp [markupEntries, viewEntries, guardAttribute, guard]

/-- The record of a right records its guard. -/
theorem filter_rightRecord {v : Right} {r : Record} (made : rightRecord s v = .ok r) :
    r.entries.filter Entry.isFunction = rightEntries v := by
  obtain ⟨parameters, parametersMade, rfl⟩ := map_eq_ok.mp made
  rw [filter_entries (plain_parameterMarkups parametersMade)]
  cases guard : v.securityFunction? <;>
    simp [markupEntries, rightEntries, guardAttribute, guard]

/-! ## Records of scripts -/

/-- The attributes of a script that record functions. -/
def recordedEntries (script : List Statement) : List Entry :=
  (written script).filter Entry.isFunction

theorem recordedEntries_append (a b : List Statement) :
    recordedEntries (a ++ b) = recordedEntries a ++ recordedEntries b := by
  rw [recordedEntries, written_append, List.filter_append]
  rfl

theorem Inert.recordedEntries_eq {script : List Statement} (h : Inert script) :
    recordedEntries script = [] := by
  rw [recordedEntries, h.written_eq, List.filter_nil]

theorem recordedEntries_createFunctions (withDefaultViews : Bool) :
    recordedEntries (createFunctions s withDefaultViews) = [] := by
  rw [recordedEntries, createFunctions, written_flatMap, List.filter_nil]

/-- What the script that creates a store records. -/
theorem recordedEntries_init {script : List Statement} (made : init s = .ok script) :
    recordedEntries script = functionEntries s true := by
  obtain ⟨document, constraints, documented, constrained, rfl⟩ := init_eq_ok made
  have middle : recordedEntries (.setDocument document :: initMiddle s constraints) =
      document.flatMap fun r => r.entries.filter Entry.isFunction := by
    rw [recordedEntries, written_cons, (inert_initMiddle constrained).written_eq,
      List.append_nil]
    exact List.filter_flatMap ..
  rw [recordedEntries_append, recordedEntries_append, recordedEntries_append,
    (inert_initFront s).recordedEntries_eq, middle, recordedEntries_createFunctions,
    (closing_initBack s).inert.recordedEntries_eq, List.nil_append, List.append_nil,
    List.append_nil]
  obtain ⟨itemTypes, itemTypesMade, rest⟩ := bind_eq_ok.mp documented
  obtain ⟨views, viewsMade, rest⟩ := bind_eq_ok.mp rest
  obtain ⟨rights, rightsMade, same⟩ := bind_eq_ok.mp rest
  cases same
  have enums : (s.enums.map enumRecord).flatMap (fun r => r.entries.filter Entry.isFunction) =
      [] := by
    rw [List.flatMap_map, List.flatMap_eq_nil_iff]
    exact fun e _ => filter_enumRecord e
  rw [List.flatMap_append, List.flatMap_append, List.flatMap_append, enums, List.append_nil,
    flatMap_eq_of_mapM itemTypesMade fun _ _ _ each => filter_itemTypeRecord each,
    flatMap_eq_of_mapM viewsMade fun _ _ _ each => filter_viewRecord each,
    flatMap_eq_of_mapM rightsMade fun _ _ _ each => filter_rightRecord each]
  rfl

theorem written_insertGuards : written (insertGuards s) = s.itemTypes.flatMap guardEntries := by
  simp only [written, insertGuards, List.flatMap_assoc, List.flatMap_map, Statement.entries,
    ← List.map_eq_flatMap]
  rfl

/-- What the script that upgrades a store records. -/
theorem recordedEntries_upgrade {script : List Statement} (made : upgrade s = .ok script) :
    recordedEntries script = functionEntries s false := by
  obtain ⟨views, rights, viewsMade, rightsMade, rfl⟩ := upgrade_eq_ok made
  have guards : recordedEntries (insertGuards s) = s.itemTypes.flatMap guardEntries := by
    rw [recordedEntries, written_insertGuards, List.filter_flatMap]
    simp only [filter_guardEntries]
  have replaced : recordedEntries ((views ++ rights).map .insertRecord) =
      (views ++ rights).flatMap fun r => r.entries.filter Entry.isFunction := by
    rw [recordedEntries, written, List.flatMap_map]
    exact List.filter_flatMap ..
  have closed : recordedEntries closeBatch = [] := rfl
  rw [recordedEntries_append, recordedEntries_append, recordedEntries_append,
    recordedEntries_append, recordedEntries_append, inert_upgradeFront.recordedEntries_eq,
    guards, replaced, closed, recordedEntries_createFunctions,
    closing_commit.inert.recordedEntries_eq, List.nil_append, List.append_nil, List.append_nil,
    List.append_nil, List.flatMap_append, ← List.append_assoc,
    flatMap_eq_of_mapM viewsMade fun _ _ _ each => filter_viewRecord each,
    flatMap_eq_of_mapM rightsMade fun _ _ _ each => filter_rightRecord each]
  rfl

/-! ## Names by kind -/

theorem flatMap_nothing {α β : Type} (xs : List α) : (xs.flatMap fun _ => ([] : List β)) = [] :=
  List.flatMap_eq_nil_iff.mpr fun _ _ => rfl

/-- Whether the definition of a function says that it returns a single value. -/
def returnsBit (f : SqlFunction) : Bool :=
  f.lines[1]? == some (line "RETURNS bit")

/-- Whether the definition of a function says that it returns rows. -/
def returnsTable (f : SqlFunction) : Bool :=
  f.lines[1]? == some (line "RETURNS TABLE")

theorem returnsBit_eq (f : SqlFunction) : returnsBit f = f.body.isScalar := by
  unfold returnsBit SqlFunction.lines FunctionBody.lines
  cases f.body.isScalar <;> rfl

theorem returnsTable_eq (f : SqlFunction) : returnsTable f = !f.body.isScalar := by
  unfold returnsTable SqlFunction.lines FunctionBody.lines
  cases f.body.isScalar <;> rfl

/-- The names of the functions of a kind. -/
def namesWhere (kind : SqlFunction → Bool) (ds : List Described) : List String :=
  ((ds.map Described.function).filter kind).map SqlFunction.name

section NamesWhere

variable {kind : SqlFunction → Bool}

theorem namesWhere_append (a b : List Described) :
    namesWhere kind (a ++ b) = namesWhere kind a ++ namesWhere kind b := by
  simp [namesWhere]

theorem namesWhere_flatMap {α : Type} (xs : List α) (f : α → List Described) :
    namesWhere kind (xs.flatMap f) = xs.flatMap fun a => namesWhere kind (f a) := by
  simp [namesWhere, List.map_flatMap, List.filter_flatMap]

theorem namesWhere_perm {a b : List Described} (h : a.Perm b) :
    (namesWhere kind a).Perm (namesWhere kind b) :=
  ((h.map _).filter _).map _

end NamesWhere

/-- A guard returns a single value, so its name is among those of that kind. -/
theorem namesWhere_returnsBit_guard {function? : Option String} {make : String → Described}
    (named : ∀ name, (make name).function.name = name)
    (scalar : ∀ name, (make name).function.body.isScalar = true) :
    namesWhere returnsBit (function?.toList.map make) = function?.toList := by
  cases function? <;> simp [namesWhere, returnsBit_eq, named, scalar]

theorem namesWhere_returnsTable_guard {function? : Option String} {make : String → Described}
    (scalar : ∀ name, (make name).function.body.isScalar = true) :
    namesWhere returnsTable (function?.toList.map make) = [] := by
  cases function? <;> simp [namesWhere, returnsTable_eq, scalar]

/-- The names of all guards of an item type. -/
def guardNames (i : ItemType) : List String :=
  recordedRights.flatMap fun right => (i.securityFunction? right).toList

theorem namesWhere_slots (kind : SqlFunction → Bool) (withDefaultViews : Bool) :
    namesWhere kind ((slots s withDefaultViews).flatMap Slot.functions) =
      s.itemTypes.flatMap (fun i =>
        namesWhere kind ((itemTypeSlots withDefaultViews i).flatMap Slot.functions)) ++
      s.views.flatMap (fun v => namesWhere kind ((viewSlots v).flatMap Slot.functions)) ++
      s.rights.flatMap fun r => namesWhere kind (rightSlot r).functions := by
  simp only [slots, List.flatMap_append, namesWhere_append, List.flatMap_assoc, List.flatMap_map,
    namesWhere_flatMap]

theorem returnsBit_itemTypeSlots (withDefaultViews : Bool) (i : ItemType) :
    (namesWhere returnsBit ((itemTypeSlots withDefaultViews i).flatMap Slot.functions)).Perm
      (guardNames i) := by
  have guard (right : ItemRight) : namesWhere returnsBit (itemRightSlot i right).functions =
      (i.securityFunction? right).toList :=
    namesWhere_returnsBit_guard (fun _ => rfl) fun _ => rfl
  have default : namesWhere returnsBit (defaultViewSlot withDefaultViews i).functions = [] := by
    cases withDefaultViews <;> rfl
  have listed :
      namesWhere returnsBit ((itemTypeSlots withDefaultViews i).flatMap Slot.functions) =
      [.delete, .update, .add, .query].flatMap fun right =>
        (i.securityFunction? right).toList := by
    simp [itemTypeSlots, namesWhere_append, guard, default]
  rw [listed]
  exact List.Perm.flatMap_right _ (by decide)

/-- The scalar functions of a schema are its guards. -/
theorem returnsBit_functions (withDefaultViews : Bool) :
    (namesWhere returnsBit (functions s withDefaultViews)).Perm
      (s.itemTypes.flatMap guardNames ++ s.views.flatMap (fun v => v.securityFunction?.toList) ++
        s.rights.flatMap fun r => r.securityFunction?.toList) := by
  refine (namesWhere_perm functions_perm).trans ?_
  rw [namesWhere_slots]
  have views (v : View) : namesWhere returnsBit ((viewSlots v).flatMap Slot.functions) =
      v.securityFunction?.toList := by
    have guard : namesWhere returnsBit (viewSecuritySlot v).functions =
        v.securityFunction?.toList :=
      namesWhere_returnsBit_guard (fun _ => rfl) fun _ => rfl
    have view : namesWhere returnsBit (viewSlot v).functions = [] := rfl
    simp [viewSlots, namesWhere_append, view, guard]
  have rights (r : Right) : namesWhere returnsBit (rightSlot r).functions =
      r.securityFunction?.toList :=
    namesWhere_returnsBit_guard (fun _ => rfl) fun _ => rfl
  simp only [views, rights]
  refine (List.Perm.append_right _ ?_).append_right _
  exact List.Perm.flatMap_left _ fun i _ => returnsBit_itemTypeSlots withDefaultViews i

/-- The table-valued functions of a schema are its views. -/
theorem returnsTable_functions (withDefaultViews : Bool) :
    (namesWhere returnsTable (functions s withDefaultViews)).Perm
      (s.views.map View.name ++
        if withDefaultViews then s.itemTypes.map ItemType.defaultViewFunction else []) := by
  refine (namesWhere_perm functions_perm).trans ?_
  rw [namesWhere_slots]
  have itemTypes (i : ItemType) :
      namesWhere returnsTable ((itemTypeSlots withDefaultViews i).flatMap Slot.functions) =
        if withDefaultViews then [i.defaultViewFunction] else [] := by
    have guard (right : ItemRight) : namesWhere returnsTable (itemRightSlot i right).functions =
        [] :=
      namesWhere_returnsTable_guard fun _ => rfl
    have default : namesWhere returnsTable (defaultViewSlot withDefaultViews i).functions =
        if withDefaultViews then [i.defaultViewFunction] else [] := by
      cases withDefaultViews <;> rfl
    simp [itemTypeSlots, namesWhere_append, guard, default]
  have views (v : View) : namesWhere returnsTable ((viewSlots v).flatMap Slot.functions) =
      [v.name] := by
    have guard : namesWhere returnsTable (viewSecuritySlot v).functions = [] :=
      namesWhere_returnsTable_guard fun _ => rfl
    have view : namesWhere returnsTable (viewSlot v).functions = [v.name] := rfl
    simp [viewSlots, namesWhere_append, view, guard]
  have rights (r : Right) : namesWhere returnsTable (rightSlot r).functions = [] :=
    namesWhere_returnsTable_guard fun _ => rfl
  simp only [itemTypes, views, rights, flatMap_nothing, ← List.map_eq_flatMap, List.append_nil]
  cases withDefaultViews with
  | false => simp [flatMap_nothing]
  | true => simpa [← List.map_eq_flatMap] using List.perm_append_comm

/-! ## Recorded names -/

section ValuesWhere

variable {chosen : Entry → Bool}

theorem valuesWhere_append (a b : List Entry) :
    valuesWhere chosen (a ++ b) = valuesWhere chosen a ++ valuesWhere chosen b := by
  simp [valuesWhere]

theorem valuesWhere_flatMap {α : Type} (xs : List α) (f : α → List Entry) :
    valuesWhere chosen (xs.flatMap f) = xs.flatMap fun a => valuesWhere chosen (f a) := by
  simp [valuesWhere, List.map_flatMap, List.filter_flatMap]

/-- Attributes that are chosen for the function in them are among those that record
functions. -/
theorem recorded_eq (functions : ∀ e : Entry, chosen e = true → e.isFunction = true)
    (script : List Statement) :
    recorded chosen script = valuesWhere chosen (recordedEntries script) := by
  have both (e : Entry) : chosen e = (chosen e && e.isFunction) := by
    cases kind : chosen e with
    | false => rfl
    | true => rw [functions e kind, Bool.and_self]
  rw [recorded, valuesWhere, valuesWhere, recordedEntries, List.filter_filter, ← funext both]

theorem valuesWhere_functionEntries (withDefaultViews : Bool) :
    valuesWhere chosen (functionEntries s withDefaultViews) =
      s.itemTypes.flatMap (fun i =>
        valuesWhere chosen (if withDefaultViews then [defaultViewEntry i] else []) ++
          valuesWhere chosen (guardEntries i)) ++
      s.views.flatMap (fun v => valuesWhere chosen (viewEntries v)) ++
      s.rights.flatMap fun r => valuesWhere chosen (rightEntries r) := by
  simp only [functionEntries, valuesWhere_append, valuesWhere_flatMap]

end ValuesWhere

theorem isGuard_guardEntries (i : ItemType) :
    valuesWhere Entry.isGuard (guardEntries i) = guardNames i := by
  have all : (guardEntries i).filter Entry.isGuard = guardEntries i :=
    List.filter_eq_self.mpr fun _ => isGuard_of_mem_guardEntries
  have values (rights : List ItemRight) :
      (rights.filterMap fun right => (i.securityFunction? right).map fun function =>
        (securityAttribute right, function)).map Prod.snd =
      rights.flatMap fun right => (i.securityFunction? right).toList := by
    induction rights with
    | nil => rfl
    | cons right rest ih =>
        rw [List.filterMap_cons, List.flatMap_cons, ← ih]
        cases i.securityFunction? right <;> rfl
  rw [valuesWhere, all, guardEntries, List.map_map]
  exact values recordedRights

/-- The attributes for guards of item types are no others. -/
theorem valuesWhere_guardEntries_eq_nil {chosen : Entry → Bool} (i : ItemType)
    (others : ∀ e : Entry, chosen e = true → e.key ∉ guardKeys) :
    valuesWhere chosen (guardEntries i) = [] := by
  rw [valuesWhere, List.map_eq_nil_iff, List.filter_eq_nil_iff]
  exact fun e inside isChosen => others e isChosen (key_of_mem_guardEntries inside)

/-- Either script records the guards of its schema. -/
theorem isGuard_functionEntries (withDefaultViews : Bool) :
    valuesWhere Entry.isGuard (functionEntries s withDefaultViews) =
      s.itemTypes.flatMap guardNames ++ s.views.flatMap (fun v => v.securityFunction?.toList) ++
        s.rights.flatMap fun r => r.securityFunction?.toList := by
  have default (i : ItemType) :
      valuesWhere Entry.isGuard (if withDefaultViews then [defaultViewEntry i] else []) =
        [] := by
    cases withDefaultViews <;> rfl
  have view (v : View) : valuesWhere Entry.isGuard (viewEntries v) =
      v.securityFunction?.toList := by
    cases guard : v.securityFunction? <;>
      simp [valuesWhere, viewEntries, Entry.isGuard, guardKeys, guard]
  have right (r : Right) : valuesWhere Entry.isGuard (rightEntries r) =
      r.securityFunction?.toList := by
    cases guard : r.securityFunction? <;>
      simp [valuesWhere, rightEntries, Entry.isGuard, guardKeys, guard]
  simp only [valuesWhere_functionEntries, default, isGuard_guardEntries, view, right,
    List.nil_append]

/-- Either script records the functions of its views. -/
theorem isView_functionEntries (withDefaultViews : Bool) :
    valuesWhere Entry.isView (functionEntries s withDefaultViews) = s.views.map View.name := by
  have default (i : ItemType) :
      valuesWhere Entry.isView (if withDefaultViews then [defaultViewEntry i] else []) = [] := by
    cases withDefaultViews <;> rfl
  have guards (i : ItemType) : valuesWhere Entry.isView (guardEntries i) = [] := by
    refine valuesWhere_guardEntries_eq_nil i fun e isView => ?_
    simp only [Entry.isView, Bool.and_eq_true, beq_iff_eq] at isView
    rw [isView.2]
    decide
  have view (v : View) : valuesWhere Entry.isView (viewEntries v) = [v.name] := by
    cases guard : v.securityFunction? <;> simp [valuesWhere, viewEntries, Entry.isView, guard]
  have right (r : Right) : valuesWhere Entry.isView (rightEntries r) = [] := by
    cases guard : r.securityFunction? <;> simp [valuesWhere, rightEntries, Entry.isView, guard]
  simp only [valuesWhere_functionEntries, default, guards, view, right, flatMap_nothing,
    List.nil_append, List.append_nil, ← List.map_eq_flatMap]

/-- The script that creates a store records the default views. -/
theorem isDefaultView_functionEntries :
    valuesWhere Entry.isDefaultView (functionEntries s true) =
      s.itemTypes.map ItemType.defaultViewFunction := by
  have default (i : ItemType) :
      valuesWhere Entry.isDefaultView [defaultViewEntry i] = [i.defaultViewFunction] := rfl
  have guards (i : ItemType) : valuesWhere Entry.isDefaultView (guardEntries i) = [] := by
    refine valuesWhere_guardEntries_eq_nil i fun e isDefaultView => ?_
    simp only [Entry.isDefaultView, Bool.and_eq_true, beq_iff_eq] at isDefaultView
    rw [isDefaultView.2]
    decide
  have view (v : View) : valuesWhere Entry.isDefaultView (viewEntries v) = [] := by
    cases guard : v.securityFunction? <;>
      simp [valuesWhere, viewEntries, Entry.isDefaultView, guard]
  have right (r : Right) : valuesWhere Entry.isDefaultView (rightEntries r) = [] := by
    cases guard : r.securityFunction? <;>
      simp [valuesWhere, rightEntries, Entry.isDefaultView, guard]
  simp only [valuesWhere_functionEntries, if_true, default, guards, view, right, flatMap_nothing,
    List.append_nil, ← List.map_eq_flatMap]

/-! ## Agreement -/

/-- A script creates a function under a name exactly if there are expressions, and the
function returns whether one of them, in their order, grants. -/
structure GuardedBy (script : List Statement) (name : String) (expressions : List String) :
    Prop where
  exists_iff : (∃ f ∈ created script, f.name = name) ↔ expressions ≠ []
  lines_eq : ∀ f ∈ created script, f.name = name → f.lines =
    [line f.header, line "RETURNS bit", line "AS", line "BEGIN"] ++
      indented (statementLines ("RETURN " ++
        " | ".intercalate (expressions.map fun e => "(" ++ e ++ ")"))) ++
      [line "END"]

/-- The functions that a script creates are those that it records, each is granted once after
its creation, and every list of grant expressions has its function.  The creations and the grants
are what is read in the lines, too. -/
structure FunctionsAgree (s : Schema) (withDefaultViews : Bool) (script : List Statement) :
    Prop where
  scalar : (((created script).filter returnsBit).map SqlFunction.name).Perm
    (recorded Entry.isGuard script)
  table : (((created script).filter returnsTable).map SqlFunction.name).Perm
    (recorded Entry.isView script ++
      if withDefaultViews then recorded Entry.isDefaultView script else [])
  once : ((created script).map SqlFunction.name).Nodup
  kind : ∀ f ∈ created script, returnsTable f = !returnsBit f
  granted : ∀ f rest, .createFunction f :: rest <:+ script →
    grantsOn f.name rest = [if returnsBit f then .execute else .select]
  itemTypes : ∀ i ∈ s.itemTypes, ∀ right,
    GuardedBy script (i.name ++ right.functionSuffix) (i.expressions right)
  views : ∀ v ∈ s.views, GuardedBy script (v.name ++ "$Security") v.expressions
  rights : ∀ r ∈ s.rights, GuardedBy script r.name r.expressions
  creations : (passages script).filter (opensWith "CREATE FUNCTION ") =
    (created script).map SqlFunction.lines
  grants : ∀ p rest, p :: rest <:+ passages script → opensWith "CREATE FUNCTION " p = true →
    ∃ f ∈ created script, p = f.lines ∧
      rest.filterMap (grantIn? f.name) = [if returnsBit f then .execute else .select]

/-- A slot that guards something does so in the script. -/
theorem guardedBy_of_slot {withDefaultViews : Bool} {script : List Statement} (h : s.Named)
    (creates : Creates (functions s withDefaultViews) script) {x : Slot}
    {expressions : List String} (hx : x ∈ slots s withDefaultViews)
    (guards : x.Guards expressions) : GuardedBy script x.name expressions := by
  have mem_slot {f : SqlFunction} (inside : f ∈ created script) (same : f.name = x.name) :
      ∃ d ∈ x.functions, d.function = f := by
    rw [creates.created_eq] at inside
    obtain ⟨d, member, rfl⟩ := List.mem_map.mp inside
    exact ⟨d, mem_slot_of_name_eq h hx member same, rfl⟩
  constructor
  · rw [← guards.nonempty_iff]
    constructor
    · rintro ⟨f, inside, same⟩
      obtain ⟨d, member, -⟩ := mem_slot inside same
      exact List.ne_nil_of_mem member
    · intro nonempty
      obtain ⟨d, member⟩ := List.exists_mem_of_ne_nil _ nonempty
      obtain ⟨made, named⟩ := mem_functions_of_slot hx member
      refine ⟨d.function, ?_, named⟩
      rw [creates.created_eq]
      exact List.mem_map.mpr ⟨d, made, rfl⟩
  · intro f inside same
    obtain ⟨d, member, rfl⟩ := mem_slot inside same
    rw [SqlFunction.lines, guards.body d member]
    rfl

/-- A script agrees if it creates the functions of the schema and records them. -/
theorem functionsAgree_of_creates {withDefaultViews : Bool} {script : List Statement}
    (h : s.Named) (creates : Creates (functions s withDefaultViews) script)
    (records : recordedEntries script = functionEntries s withDefaultViews) :
    FunctionsAgree s withDefaultViews script := by
  have distinct := functions_names_distinct h withDefaultViews
  have granted : ∀ f rest, .createFunction f :: rest <:+ script →
      grantsOn f.name rest = [if returnsBit f then .execute else .select] := by
    intro f rest suffix
    rw [creates.granted_once distinct suffix, permissionOf, returnsBit_eq]
  constructor
  case scalar =>
    rw [creates.created_eq, recorded_eq fun _ => Entry.isFunction_of_isGuard, records,
      isGuard_functionEntries]
    exact returnsBit_functions withDefaultViews
  case table =>
    rw [creates.created_eq, recorded_eq fun _ => Entry.isFunction_of_isView,
      recorded_eq fun _ => Entry.isFunction_of_isDefaultView, records, isView_functionEntries]
    refine (returnsTable_functions withDefaultViews).trans ?_
    cases withDefaultViews with
    | false => exact .refl _
    | true => rw [isDefaultView_functionEntries]
  case once =>
    rw [creates.created_eq, List.map_map]
    exact distinct
  case kind => exact fun f _ => by rw [returnsTable_eq, returnsBit_eq]
  case granted => exact granted
  case itemTypes =>
    intro i member right
    exact guardedBy_of_slot h creates
      (mem_slots_iff.mpr (.inl ⟨i, member, .inr ⟨right, rfl⟩⟩)) (itemRightSlot_guards i right)
  case views =>
    intro v member
    exact guardedBy_of_slot h creates
      (mem_slots_iff.mpr (.inr (.inl ⟨v, member, .inr rfl⟩))) (viewSecuritySlot_guards v)
  case rights =>
    intro r member
    have guarded := guardedBy_of_slot h creates
      (mem_slots_iff.mpr (.inr (.inr ⟨r, member, rfl⟩))) (rightSlot_guards r)
    rwa [Slot.name, rightSlot, String.append_empty] at guarded
  case creations => exact filter_passages_created script
  case grants =>
    intro p rest suffix opens
    obtain ⟨f, others, creation, rfl, rfl⟩ := exists_creation_of_suffix suffix opens
    refine ⟨f, List.mem_filterMap.mpr ⟨_, creation.subset List.mem_cons_self, rfl⟩, rfl, ?_⟩
    rw [filterMap_passages_grantIn?, granted f others creation]

/-- For every finished schema there are both scripts, and in either of them the created
functions are the recorded ones. -/
theorem functionsAgree_of_finished (h : s.Finished) :
    (∃ script, init s = .ok script ∧ FunctionsAgree s true script) ∧
      ∃ script, upgrade s = .ok script ∧ FunctionsAgree s false script := by
  obtain ⟨d, sound, complete, rfl⟩ := h.drafts
  have valid := sound.valid complete
  obtain ⟨first, firstMade⟩ := succeeds_init valid
  obtain ⟨second, secondMade⟩ := succeeds_upgrade valid
  exact ⟨⟨first, firstMade, functionsAgree_of_creates sound.named (creates_init firstMade)
      (recordedEntries_init firstMade)⟩,
    ⟨second, secondMade, functionsAgree_of_creates sound.named (creates_upgrade secondMade)
      (recordedEntries_upgrade secondMade)⟩⟩

theorem functionsAgree_sample : Sample.schema.Finished ∧
    (∃ script, init Sample.schema = .ok script ∧ FunctionsAgree Sample.schema true script) ∧
      ∃ script, upgrade Sample.schema = .ok script ∧
        FunctionsAgree Sample.schema false script :=
  ⟨Sample.schema_finished, functionsAgree_of_finished Sample.schema_finished⟩

example : (functions Sample.schema true).map (fun d => d.function.name) =
    ["Pet$AddSecurity", "Pets", "Feed", "Pet$DefaultView"] := by
  decide

end LearningStore.Script
