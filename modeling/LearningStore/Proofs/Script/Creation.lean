import LearningStore.Proofs.Schema.Lookup
import LearningStore.Proofs.Script.FunctionNames
import LearningStore.Script.Upgrade

/-!
# What scripts create, write and grant

Most statements of a script neither create a function nor write into the stored document.
A script is one run of statements that write, one that creates functions, and such inert
statements around them.  Nothing after the functions grants anything but on a function.
-/

namespace LearningStore.Script

open LearningStore.Schema
open LearningStore.Xml

/-! ## Effects of statements -/

/-- An attribute in the stored document, with the element it stands on. -/
structure Entry where
  element : String
  key : String
  value : String
deriving DecidableEq, Repr

def markupEntries (m : Markup) : List Entry :=
  m.attributes.map fun a => ⟨m.name, a.1, a.2⟩

def Record.entries (r : Record) : List Entry :=
  markupEntries r.markup ++ r.members.flatMap markupEntries

namespace Statement

/-- The function that a statement creates. -/
def created? : Statement → Option SqlFunction
  | createFunction f => some f
  | _ => none

/-- The attributes that a statement writes into the stored document. -/
def entries : Statement → List Entry
  | setDocument rs => rs.flatMap Record.entries
  | insertAttribute _ name value => [⟨"ItemType", name, value⟩]
  | insertRecord r => r.entries
  | _ => []

/-- What a statement grants the role on the object with a name. -/
def grantOn? (name : String) : Statement → Option Permission
  | grant permission object => if object = name then some permission else none
  | grantConfiguration => if "Configuration" = name then some .select else none
  | _ => none

end Statement

/-- The functions that a script creates, in order. -/
def created (script : List Statement) : List SqlFunction :=
  script.filterMap Statement.created?

/-- The attributes that a script writes, in order. -/
def written (script : List Statement) : List Entry :=
  script.flatMap Statement.entries

/-- What a script grants on the object with a name, in order. -/
def grantsOn (name : String) (script : List Statement) : List Permission :=
  script.filterMap (Statement.grantOn? name)

section Append

variable (a b : List Statement) (st : Statement) (name : String)

@[simp] theorem created_append : created (a ++ b) = created a ++ created b :=
  List.filterMap_append

@[simp] theorem written_append : written (a ++ b) = written a ++ written b :=
  List.flatMap_append

@[simp] theorem written_cons : written (st :: b) = st.entries ++ written b := rfl

@[simp] theorem grantsOn_append : grantsOn name (a ++ b) = grantsOn name a ++ grantsOn name b :=
  List.filterMap_append

end Append

/-! ## Inert statements -/

/-- Statements that create no function and write nothing into the stored document. -/
def Inert (script : List Statement) : Prop :=
  ∀ st ∈ script, st.created? = none ∧ st.entries = []

theorem Inert.created_eq {script : List Statement} (h : Inert script) : created script = [] :=
  List.filterMap_eq_nil_iff.mpr fun st inside => (h st inside).1

theorem Inert.written_eq {script : List Statement} (h : Inert script) : written script = [] :=
  List.flatMap_eq_nil_iff.mpr fun st inside => (h st inside).2

theorem Inert.append {a b : List Statement} (ha : Inert a) (hb : Inert b) : Inert (a ++ b) :=
  List.forall_mem_append.mpr ⟨ha, hb⟩

/-! ## Passive statements -/

/-- Whether a statement has to do with neither functions, nor the stored document, nor the
batch that it stands in. -/
def Statement.isPassive : Statement → Bool
  | comment _ | blank | snippet _ | turnOn _ | commit | createConfiguration | createRole
  | grantConfiguration | grant _ _ | createEnumTable _ | identityInsert _ _
  | insertRow _ _ _ | createTable _ _ | addForeignKey _ => true
  | _ => false

def Passive (script : List Statement) : Prop :=
  ∀ st ∈ script, st.isPassive = true

theorem Passive.append {a b : List Statement} (ha : Passive a) (hb : Passive b) :
    Passive (a ++ b) :=
  List.forall_mem_append.mpr ⟨ha, hb⟩

theorem Passive.flatMap {α : Type} {xs : List α} {f : α → List Statement}
    (h : ∀ a ∈ xs, Passive (f a)) : Passive (xs.flatMap f) := by
  intro st inside
  obtain ⟨a, member, found⟩ := List.mem_flatMap.mp inside
  exact h a member st found

theorem Passive.inert {script : List Statement} (h : Passive script) : Inert script := by
  intro st inside
  have passive := h st inside
  cases st with
  | createFunction | setDocument | insertAttribute | insertRecord => cases passive
  | _ => exact ⟨rfl, rfl⟩

theorem passive_snippets (texts : List String) : Passive (snippets texts) :=
  .flatMap fun _ _ => by simp [Passive, Statement.isPassive]

theorem passive_enumTable (e : EnumType) : Passive (enumTable e) := by
  have rows (values : List EnumValue) :
      Passive ((enumRows [] values).map fun row => .insertRow e.name row.1 row.2) := by
    intro st inside
    obtain ⟨row, -, rfl⟩ := List.mem_map.mp inside
    rfl
  unfold enumTable enumInserts
  split
  next => simp [Passive, Statement.isPassive]
  next =>
    refine .append (.append ?_ (.append (a := _ :: _) ?_ ?_)) ?_
    · simp [Passive, Statement.isPassive]
    · exact List.forall_mem_cons.mpr ⟨rfl, rows e.values⟩
    · simp [Passive, Statement.isPassive]
    · simp [Passive, Statement.isPassive]

theorem passive_itemTypeTable (i : ItemType) : Passive (itemTypeTable i) := by
  simp [Passive, itemTypeTable, Statement.isPassive]

theorem passive_constraintsAndIndexes {s : Schema} {i : ItemType} {script : List Statement}
    (made : constraintsAndIndexes s i = .ok script) : Passive script := by
  obtain ⟨keys, found, rfl⟩ := map_eq_ok.mp made
  obtain ⟨lists, -, rfl⟩ := map_eq_ok.mp found
  refine .append (.flatMap fun _ _ => ?_) (passive_snippets i.indexes)
  simp [Passive, Statement.isPassive]

/-- The role, the tables, their constraints and their indexes. -/
theorem passive_tables {s : Schema} {constraints : List (List Statement)}
    (made : s.itemTypes.mapM (constraintsAndIndexes s) = .ok constraints) :
    Passive (createRole ++ s.enums.flatMap enumTable ++ s.itemTypes.flatMap itemTypeTable ++
      constraints.flatten) := by
  have each : ∀ script ∈ constraints, Passive script :=
    forall_mem_of_mapM made fun i _ script part => passive_constraintsAndIndexes part
  refine .append (.append (.append ?_ ?_) ?_) ?_
  · simp [Passive, createRole, Statement.isPassive]
  · exact .flatMap fun e _ => passive_enumTable e
  · exact .flatMap fun i _ => passive_itemTypeTable i
  · rw [← List.flatMap_id]
    exact .flatMap each

/-! ## The parts of a script -/

variable {s : Schema}

/-- What the script that creates a store does before it writes the stored document. -/
def initFront (s : Schema) : List Statement :=
  header ++ guardMaster ++ sessionSettings ++ snippets s.sqlBefore ++
    [.comment "Create the table holding the engine version and the schema document",
      .createConfiguration]

/-- What it does between the stored document and the functions. -/
def initMiddle (s : Schema) (constraints : List (List Statement)) : List Statement :=
  [.insertConfiguration, .blank] ++ createRole ++ s.enums.flatMap enumTable ++
    s.itemTypes.flatMap itemTypeTable ++ constraints.flatten ++ closeBatch

/-- What it does after the functions. -/
def initBack (s : Schema) : List Statement :=
  snippets (s.itemTypes.flatMap fun i => i.sqlAfter) ++ snippets s.sqlAfter ++ commit

theorem init_eq_ok {script : List Statement} (made : init s = .ok script) :
    ∃ document constraints, records s = .ok document ∧
      s.itemTypes.mapM (constraintsAndIndexes s) = .ok constraints ∧
      script = (initFront s ++ .setDocument document :: initMiddle s constraints) ++
        createFunctions s true ++ initBack s := by
  obtain ⟨document, recorded, rest⟩ := bind_eq_ok.mp made
  obtain ⟨constraints, constrained, same⟩ := bind_eq_ok.mp rest
  refine ⟨document, constraints, recorded, constrained, ?_⟩
  cases same
  simp [initFront, initMiddle, initBack, configuration]

theorem inert_initFront (s : Schema) : Inert (initFront s) := by
  refine .append (.append ?_ (passive_snippets s.sqlBefore).inert) ?_
  · simp [Inert, header, guardMaster, sessionSettings, Statement.created?, Statement.entries]
  · simp [Inert, Statement.created?, Statement.entries]

theorem inert_initMiddle {constraints : List (List Statement)}
    (made : s.itemTypes.mapM (constraintsAndIndexes s) = .ok constraints) :
    Inert (initMiddle s constraints) := by
  have listed : initMiddle s constraints = [.insertConfiguration, .blank] ++
      (createRole ++ s.enums.flatMap enumTable ++ s.itemTypes.flatMap itemTypeTable ++
        constraints.flatten) ++ closeBatch := by
    simp [initMiddle]
  rw [listed]
  refine .append (.append ?_ (passive_tables made).inert) ?_
  · simp [Inert, Statement.created?, Statement.entries]
  · simp [Inert, closeBatch, Statement.created?, Statement.entries]

/-- The end of either script. -/
structure Closing (script : List Statement) : Prop where
  inert : Inert script
  grants : ∀ name, grantsOn name script = []

theorem Closing.append {a b : List Statement} (ha : Closing a) (hb : Closing b) :
    Closing (a ++ b) :=
  ⟨ha.inert.append hb.inert, fun name => by simp [ha.grants, hb.grants]⟩

theorem closing_snippets (texts : List String) : Closing (snippets texts) := by
  refine ⟨(passive_snippets texts).inert, fun name => ?_⟩
  refine List.filterMap_eq_nil_iff.mpr fun st inside => ?_
  obtain ⟨text, -, found⟩ := List.mem_flatMap.mp inside
  rcases List.mem_pair.mp found with rfl | rfl <;> rfl

theorem closing_commit : Closing commit :=
  ⟨by simp [Inert, commit, closeBatch, Statement.created?, Statement.entries], fun _ => rfl⟩

theorem closing_initBack (s : Schema) : Closing (initBack s) :=
  ((closing_snippets _).append (closing_snippets _)).append closing_commit

/-- What the script that upgrades a store does before it changes the stored document. -/
def upgradeFront : List Statement :=
  header ++ guardMaster ++ guardEmpty ++ sessionSettings ++ dropFunctions ++ closeBatch ++
    [.comment "Replace the view, right and security information in the schema document",
      .declareCommand] ++ deleteRecorded

theorem upgrade_eq_ok {script : List Statement} (made : upgrade s = .ok script) :
    ∃ views rights, s.views.mapM (viewRecord s) = .ok views ∧
      s.rights.mapM (rightRecord s) = .ok rights ∧
      script = (upgradeFront ++ insertGuards s ++ (views ++ rights).map .insertRecord ++
        closeBatch) ++ createFunctions s false ++ commit := by
  obtain ⟨document, replaced, rest⟩ := bind_eq_ok.mp made
  obtain ⟨views, viewed, rest'⟩ := bind_eq_ok.mp replaced
  obtain ⟨rights, righted, same⟩ := bind_eq_ok.mp rest'
  refine ⟨views, rights, viewed, righted, ?_⟩
  cases same
  cases rest
  simp [upgradeFront]

theorem inert_upgradeFront : Inert upgradeFront := by
  simp [Inert, upgradeFront, header, guardMaster, guardEmpty, sessionSettings, dropFunctions,
    closeBatch, deleteRecorded, recordedRights, Statement.created?, Statement.entries]

/-! ## Created functions -/

theorem created_flatMap (ds : List Described) :
    created (ds.flatMap createFunction) = ds.map Described.function := by
  induction ds with
  | nil => rfl
  | cons d rest ih =>
      rw [List.flatMap_cons, created_append, ih]
      rfl

theorem written_flatMap (ds : List Described) : written (ds.flatMap createFunction) = [] := by
  induction ds with
  | nil => rfl
  | cons d rest ih =>
      rw [List.flatMap_cons, written_append, ih]
      rfl

/-- A script that creates functions one after the other, none before and none after. -/
def Creates (ds : List Described) (script : List Statement) : Prop :=
  ∃ front back, script = front ++ ds.flatMap createFunction ++ back ∧ created front = [] ∧
    Closing back

theorem creates_init {script : List Statement} (made : init s = .ok script) :
    Creates (functions s true) script := by
  obtain ⟨document, constraints, -, constrained, rfl⟩ := init_eq_ok made
  refine ⟨_, initBack s, rfl, ?_, closing_initBack s⟩
  rw [created_append, (inert_initFront s).created_eq]
  exact (inert_initMiddle constrained).created_eq

theorem creates_upgrade {script : List Statement} (made : upgrade s = .ok script) :
    Creates (functions s false) script := by
  obtain ⟨views, rights, -, -, rfl⟩ := upgrade_eq_ok made
  refine ⟨_, commit, rfl, ?_, closing_commit⟩
  have guards : created (insertGuards s) = [] := by
    refine List.filterMap_eq_nil_iff.mpr fun st inside => ?_
    obtain ⟨i, -, found⟩ := List.mem_flatMap.mp inside
    obtain ⟨entry, -, rfl⟩ := List.mem_map.mp found
    rfl
  have replaced : created ((views ++ rights).map .insertRecord) = [] := by
    refine List.filterMap_eq_nil_iff.mpr fun st inside => ?_
    obtain ⟨r, -, rfl⟩ := List.mem_map.mp inside
    rfl
  rw [created_append, created_append, created_append, inert_upgradeFront.created_eq, guards,
    replaced]
  rfl

theorem Creates.created_eq {ds : List Described} {script : List Statement}
    (h : Creates ds script) : created script = ds.map Described.function := by
  obtain ⟨front, back, rfl, before, closing⟩ := h
  rw [created_append, created_append, before, created_flatMap, closing.inert.created_eq,
    List.nil_append, List.append_nil]

/-! ## Grants -/

/-- What a function is granted for: its value or its rows. -/
def permissionOf (f : SqlFunction) : Permission :=
  if f.body.isScalar then .execute else .select

theorem grantsOn_createFunction (name : String) (d : Described) :
    grantsOn name (createFunction d) =
      if d.function.name = name then [permissionOf d.function] else [] := by
  unfold grantsOn createFunction
  by_cases same : d.function.name = name <;>
    simp [List.filterMap_cons, Statement.grantOn?, permissionOf, same]

/-- Creating functions of other names grants nothing on a name. -/
theorem grantsOn_flatMap_eq_nil {ds : List Described} {name : String}
    (others : ∀ d ∈ ds, d.function.name ≠ name) :
    grantsOn name (ds.flatMap createFunction) = [] := by
  induction ds with
  | nil => rfl
  | cons d rest ih =>
      rw [List.flatMap_cons, grantsOn_append, grantsOn_createFunction,
        if_neg (others d List.mem_cons_self),
        ih fun e inside => others e (List.mem_cons_of_mem d inside)]
      rfl

/-- The grant of a function, in the batches after its creation. -/
def grantFunction (f : SqlFunction) : List Statement :=
  [.endBatch, .grant (permissionOf f) f.name, .endBatch, .blank]

theorem createFunction_eq (d : Described) : createFunction d =
    [.comment d.purpose] ++ .createFunction d.function :: grantFunction d.function := rfl

/-- A creation that does not stand in front stands behind. -/
theorem suffix_of_created_eq_nil {front script rest : List Statement} {f : SqlFunction}
    (before : created front = []) (suffix : .createFunction f :: rest <:+ front ++ script) :
    .createFunction f :: rest <:+ script := by
  induction front with
  | nil => exact suffix
  | cons st front ih =>
      obtain ⟨first, others⟩ := List.forall_mem_cons.mp (List.filterMap_eq_nil_iff.mp before)
      rcases List.suffix_cons_iff.mp suffix with same | later
      · cases same
        cases first
      · exact ih (List.filterMap_eq_nil_iff.mpr others) later

/-- After its creation every function is granted once, for what it returns. -/
theorem granted_once {ds : List Described} {back rest : List Statement} {f : SqlFunction}
    (distinct : (ds.map fun d => d.function.name).Nodup) (closing : Closing back)
    (suffix : .createFunction f :: rest <:+ ds.flatMap createFunction ++ back) :
    grantsOn f.name rest = [permissionOf f] := by
  induction ds with
  | nil =>
      have inside : f ∈ created back := by
        refine List.mem_filterMap.mpr ⟨.createFunction f, ?_, rfl⟩
        exact suffix.subset List.mem_cons_self
      rw [closing.inert.created_eq] at inside
      cases inside
  | cons d others ih =>
      rw [List.map_cons, List.nodup_cons] at distinct
      rw [List.flatMap_cons, createFunction_eq, List.append_assoc, List.append_assoc] at suffix
      have behind := suffix_of_created_eq_nil (by rfl) suffix
      rw [List.cons_append] at behind
      rcases List.suffix_cons_iff.mp behind with here | later
      · cases here
        have none_other : ∀ e ∈ others, e.function.name ≠ d.function.name :=
          fun e inside same => distinct.1 (List.mem_map.mpr ⟨e, inside, same⟩)
        rw [grantsOn_append, grantsOn_append, grantsOn_flatMap_eq_nil none_other,
          closing.grants]
        simp [grantsOn, grantFunction, List.filterMap_cons, Statement.grantOn?]
      · exact ih distinct.2 (suffix_of_created_eq_nil (by rfl) later)

theorem Creates.granted_once {ds : List Described} {script rest : List Statement}
    {f : SqlFunction} (h : Creates ds script)
    (distinct : (ds.map fun d => d.function.name).Nodup)
    (suffix : .createFunction f :: rest <:+ script) :
    grantsOn f.name rest = [permissionOf f] := by
  obtain ⟨front, back, rfl, before, closing⟩ := h
  rw [List.append_assoc] at suffix
  exact Script.granted_once distinct closing (suffix_of_created_eq_nil before suffix)

end LearningStore.Script
