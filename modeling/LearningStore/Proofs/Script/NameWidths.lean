import LearningStore.Proofs.Script.EnumRows
import LearningStore.Proofs.Script.Upgrading
import Mathlib.Data.Finset.Image

/-!
# Widths of names

Two places of the scripts hold a name at a fixed width: the column for the names of an enum, and
the variable into which an upgrade fetches the name of a function that it drops.  A longer name is
not stored in the column, and the variable keeps the first characters of it only.  No name of a
schema is bounded.  The names that fit are told here by the lengths of declared names, and a store
can be upgraded to its own schema exactly if the names of the functions in it fit.
-/

namespace LearningStore.Script

open LearningStore.Schema
open LearningStore.Text

variable {s s₀ : Schema} {name : String}

/-! ## Widths -/

/-- The width of the column for the names of an enum. -/
def enumNameWidth : Nat := 63

/-- The width at which the names of functions are read from the stored document, and of the
variable that they are fetched into. -/
def functionNameWidth : Nat := 100

/-- The line for the column with the names of an enum. -/
def nameColumn : Line :=
  ⟨1, "Name varchar(" ++ integerText enumNameWidth ++ ") NOT NULL"⟩

/-- The line for the variable that names of functions are fetched into. -/
def nameVariable : Line :=
  line ("DECLARE @name varchar(" ++ integerText functionNameWidth ++ ")")

/-- The line that reads the names of functions in an attribute. -/
def nameQuery (key : String) : Line :=
  line ("SELECT V.value('@" ++ key ++ "', 'nvarchar(" ++
    integerText functionNameWidth ++ ")')")

theorem nameColumn_mem_lines (table : String) :
    nameColumn ∈ (Statement.createEnumTable table).lines := by
  have written : nameColumn = ⟨1, "Name varchar(63) NOT NULL"⟩ := by
    decide
  rw [written]
  simp [Statement.lines, indented, indentedBy, line]

theorem nameVariable_mem_dropLines : nameVariable ∈ dropLines := by
  have written : nameVariable = line "DECLARE @name varchar(100)" := by
    decide
  rw [written]
  simp [dropLines]

/-- Each attribute that holds functions to drop is read at that width. -/
theorem nameQuery_mem_dropLines {entry : String × String} (listed : entry ∈ recordedFunctions) :
    nameQuery entry.1 ∈ dropLines := by
  revert entry
  decide

/-- What a variable of some width keeps of a text. -/
def kept (width : Nat) (text : String) : String :=
  String.ofList (text.toList.take width)

theorem length_kept_le (width : Nat) (text : String) : (kept width text).length ≤ width := by
  rw [kept, String.length_ofList]
  exact List.length_take_le width text.toList

theorem kept_eq_self_iff {width : Nat} {text : String} :
    kept width text = text ↔ text.length ≤ width := by
  constructor
  · intro same
    rw [← same]
    exact length_kept_le width text
  · intro fits
    rw [kept, List.take_of_length_le fits, String.ofList_toList]

/-! ## Names in enum tables -/

/-- The names that a script inserts into tables, in order. -/
def insertedNames (script : List Statement) : List String :=
  script.filterMap fun
    | .insertRow _ _ name => some name
    | _ => none

theorem insertedNames_filling (script : List Statement) :
    insertedNames (filling script) = insertedNames script := by
  rw [insertedNames, filling, List.filterMap_filter]
  refine List.filterMap_congr fun st _ => ?_
  cases st <;> rfl

theorem insertedNames_enumInserts (e : EnumType) :
    insertedNames (enumInserts e) = (enumRows [] e.values).map Prod.snd := by
  rcases enumInserts_cases e with ⟨empty, nothing⟩ | filled
  · rw [nothing, empty]
    rfl
  · rw [filled, insertedNames, List.filterMap_append, List.filterMap_cons_none rfl,
      List.filterMap_map, ← List.filterMap_eq_map]
    exact List.append_nil _

/-- The script that creates a store inserts, for every number of an enum, its first name. -/
theorem mem_insertedNames_init {script : List Statement} (made : init s = .ok script) :
    name ∈ insertedNames script ↔ ∃ e ∈ s.enums, ∃ number, e.nameOf? number = some name := by
  have inserted : insertedNames script =
      s.enums.flatMap fun e => (enumRows [] e.values).map Prod.snd := by
    rw [← insertedNames_filling, filling_init made, insertedNames, List.filterMap_flatMap]
    exact List.flatMap_congr fun e _ => insertedNames_enumInserts e
  simp only [inserted, List.mem_flatMap, List.mem_map, Prod.exists, exists_eq_right,
    mem_enumRows_iff, List.not_mem_nil, not_false_eq_true, true_and, EnumType.nameOf?]

theorem insertedNames_upgrade {script : List Statement} (made : upgrade s = .ok script) :
    insertedNames script = [] := by
  obtain ⟨views, rights, -, -, rfl⟩ := upgrade_eq_ok made
  have guards : filling (insertGuards s) = [] := by
    refine filling_flatMap_eq_nil fun i => List.filter_eq_nil_iff.mpr fun st inside => ?_
    obtain ⟨entry, -, rfl⟩ := List.mem_map.mp inside
    exact Bool.false_ne_true
  have inserted : filling ((views ++ rights).map .insertRecord) = [] := by
    refine List.filter_eq_nil_iff.mpr fun st inside => ?_
    obtain ⟨r, -, rfl⟩ := List.mem_map.mp inside
    exact Bool.false_ne_true
  have functions : filling (createFunctions s false) = [] := filling_flatMap_eq_nil fun _ => rfl
  have nothing : filling ((upgradeFront ++ insertGuards s ++
      (views ++ rights).map .insertRecord ++ closeBatch) ++ createFunctions s false ++
        commit) = [] := by
    simp only [filling_append, guards, inserted, functions]
    rfl
  rw [← insertedNames_filling, nothing]
  rfl

/-- The names in the tables of enums fit the column for them. -/
def EnumNamesFit (s : Schema) : Prop :=
  ∀ e ∈ s.enums, ∀ number name, e.nameOf? number = some name → name.length ≤ enumNameWidth

theorem forall_insertedNames_init {script : List Statement} (made : init s = .ok script) :
    (∀ name ∈ insertedNames script, name.length ≤ enumNameWidth) ↔ EnumNamesFit s := by
  simp only [mem_insertedNames_init made]
  constructor
  · exact fun all e known number name called => all name ⟨e, known, number, called⟩
  · rintro all name ⟨e, known, number, called⟩
    exact all e known number name called

/-! ## Names in the document -/

/-- The names of the functions that a document over the base of one schema records for another fit
the variable that they are fetched into. -/
structure FunctionNamesFit (s₀ s : Schema) : Prop where
  guards : ∀ i ∈ s.itemTypes, i.name ∈ s₀.itemTypes.map ItemType.name → ∀ right,
    i.expressions right ≠ [] → i.name.length + right.functionSuffix.length ≤ functionNameWidth
  views : ∀ v ∈ s.views, v.name.length ≤ functionNameWidth
  viewGuards : ∀ v ∈ s.views, v.expressions ≠ [] →
    v.name.length + "$Security".length ≤ functionNameWidth
  rights : ∀ r ∈ s.rights, r.expressions ≠ [] → r.name.length ≤ functionNameWidth

/-- The names of the default views fit that variable. -/
def DefaultViewsFit (s : Schema) : Prop :=
  ∀ i ∈ s.itemTypes, i.name.length + "$DefaultView".length ≤ functionNameWidth

/-- A function that exists if there are expressions has a short name if it does. -/
theorem forall_length_guard_iff {expressions : List String} {owner : String} {width : Nat} :
    (∀ name, (if expressions.isEmpty then none else some owner) = some name →
      name.length ≤ width) ↔ (expressions ≠ [] → owner.length ≤ width) := by
  cases expressions <;> simp

theorem functionNamesFit_iff :
    FunctionNamesFit s₀ s ↔
      ∀ name, IsKeptGuard s₀ s name ∨ IsViewOrRight s name → name.length ≤ functionNameWidth := by
  have guard (i : ItemType) (right : ItemRight) :
      (∀ name, i.securityFunction? right = some name → name.length ≤ functionNameWidth) ↔
        (i.expressions right ≠ [] →
          i.name.length + right.functionSuffix.length ≤ functionNameWidth) := by
    rw [← String.length_append]
    exact forall_length_guard_iff
  have viewGuard (v : View) :
      (∀ name, v.securityFunction? = some name → name.length ≤ functionNameWidth) ↔
        (v.expressions ≠ [] → v.name.length + "$Security".length ≤ functionNameWidth) := by
    rw [← String.length_append]
    exact forall_length_guard_iff
  have right (r : Right) :
      (∀ name, r.securityFunction? = some name → name.length ≤ functionNameWidth) ↔
        (r.expressions ≠ [] → r.name.length ≤ functionNameWidth) :=
    forall_length_guard_iff
  constructor
  · rintro fit name (⟨i, inside, known, kind, found⟩ | ⟨v, inside, rfl | found⟩ |
      ⟨r, inside, found⟩)
    · exact (guard i kind).mpr (fit.guards i inside known kind) name found
    · exact fit.views v inside
    · exact (viewGuard v).mpr (fit.viewGuards v inside) name found
    · exact (right r).mpr (fit.rights r inside) name found
  · intro all
    constructor
    case guards =>
      exact fun i inside known kind =>
        (guard i kind).mp fun name found => all name (.inl ⟨i, inside, known, kind, found⟩)
    case views => exact fun v inside => all v.name (.inr (.inl ⟨v, inside, .inl rfl⟩))
    case viewGuards =>
      exact fun v inside =>
        (viewGuard v).mp fun name found => all name (.inr (.inl ⟨v, inside, .inr found⟩))
    case rights =>
      exact fun r inside =>
        (right r).mp fun name found => all name (.inr (.inr ⟨r, inside, found⟩))

/-- Over its own base, a schema has all guards recorded. -/
theorem isKeptGuard_self : IsKeptGuard s s name ↔ IsItemGuard s name := by
  constructor
  · rintro ⟨i, inside, -, found⟩
    exact ⟨i, inside, found⟩
  · rintro ⟨i, inside, found⟩
    exact ⟨i, inside, List.mem_map_of_mem inside, found⟩

/-- The names that a script records are those of the functions of its schema. -/
theorem mem_recorded_iff {withDefaultViews : Bool} {script : List Statement}
    (records : recordedEntries script = functionEntries s withDefaultViews) :
    name ∈ recorded Entry.isFunction script ↔
      (withDefaultViews = true ∧ name ∈ s.itemTypes.map ItemType.defaultViewFunction) ∨
        IsKeptGuard s s name ∨ IsViewOrRight s name := by
  have default (i : ItemType) : valuesWhere Entry.isFunction
      (if withDefaultViews then [defaultViewEntry i] else []) =
        if withDefaultViews then [i.defaultViewFunction] else [] := by
    cases withDefaultViews <;> rfl
  have guards (i : ItemType) : valuesWhere Entry.isFunction (guardEntries i) = guardNames i := by
    have all : (guardEntries i).filter Entry.isGuard = guardEntries i :=
      List.filter_eq_self.mpr fun _ => isGuard_of_mem_guardEntries
    rw [← isGuard_guardEntries, valuesWhere, valuesWhere, filter_guardEntries, all]
  have view (v : View) : valuesWhere Entry.isFunction (viewEntries v) =
      v.name :: v.securityFunction?.toList := by
    cases guard : v.securityFunction? <;> simp [valuesWhere, viewEntries, guard]
  have right (r : Right) : valuesWhere Entry.isFunction (rightEntries r) =
      r.securityFunction?.toList := by
    cases guard : r.securityFunction? <;> simp [valuesWhere, rightEntries, guard]
  rw [recorded_eq fun _ isFunction => isFunction, records, valuesWhere_functionEntries]
  simp only [default, guards, view, right, List.mem_append, List.mem_flatMap, List.mem_cons,
    mem_guardNames, Option.mem_toList, isKeptGuard_self, IsItemGuard, IsViewOrRight, List.mem_map]
  constructor
  · rintro ((⟨i, inside, viewed | guard⟩ | ⟨v, inside, found⟩) | ⟨r, inside, found⟩)
    · cases withDefaultViews with
      | false => cases viewed
      | true => exact .inl ⟨rfl, i, inside, (List.mem_singleton.mp viewed).symm⟩
    · exact .inr (.inl ⟨i, inside, guard⟩)
    · exact .inr (.inr (.inl ⟨v, inside, found.imp_left Eq.symm⟩))
    · exact .inr (.inr (.inr ⟨r, inside, found⟩))
  · rintro (⟨rfl, i, inside, rfl⟩ | ⟨i, inside, guard⟩ | ⟨v, inside, found⟩ | ⟨r, inside, found⟩)
    · exact .inl (.inl ⟨i, inside, .inl (List.mem_singleton.mpr rfl)⟩)
    · exact .inl (.inl ⟨i, inside, .inr guard⟩)
    · exact .inl (.inr ⟨v, inside, found.imp_left Eq.symm⟩)
    · exact .inr ⟨r, inside, found⟩

/-! ## Fetched names -/

/-- The names that an upgrade fetches from the stored document. -/
def fetchedNames (rs : List Record) : Finset String :=
  (recordedNames rs).toFinset.image (kept functionNameWidth)

/-- Drop the functions whose names are fetched. -/
def Database.dropFetched (db : Database) : Except Failure Database :=
  match db.document with
  | none => .error .noDocument
  | some rs =>
      if fetchedNames rs ⊆ db.functions then
        .ok { db with
          functions := db.functions \ fetchedNames rs
          batch := db.batch ++ [("@name", none), (commandVariable, none)] }
      else .error .functionMissing

section Fetching

variable {db after : Database} {rs : List Record}

/-- The variable never holds a name that does not fit, so the function under it stays. -/
theorem mem_functions_dropFetched (run : db.dropFetched = .ok after) (taken : name ∈ db.functions)
    (long : functionNameWidth < name.length) : name ∈ after.functions := by
  have unfetched (rs : List Record) : name ∉ fetchedNames rs := by
    rw [fetchedNames, Finset.mem_image]
    rintro ⟨whole, -, rfl⟩
    exact absurd (length_kept_le functionNameWidth whole) (Nat.not_le.mpr long)
  unfold Database.dropFetched at run
  split at run
  next => cases run
  next rs _ =>
    split at run
    next =>
      cases run
      exact Finset.mem_sdiff.mpr ⟨taken, unfetched rs⟩
    next => cases run

/-- The functions that are dropped are those that are recorded, exactly if all names fit. -/
theorem dropFetched_eq_dropRecorded_iff (document : db.document = some rs)
    (known : (recordedNames rs).toFinset ⊆ db.functions) :
    db.dropFetched = db.dropRecorded ↔
      ∀ name ∈ recordedNames rs, name.length ≤ functionNameWidth := by
  constructor
  · intro same name recorded
    by_contra long
    have dropped : db.dropRecorded = .ok { db with
        functions := db.functions \ (recordedNames rs).toFinset
        batch := db.batch ++ [("@name", none), (commandVariable, none)] } := by
      simp only [Database.dropRecorded, document]
      exact if_pos known
    have left := mem_functions_dropFetched (same.trans dropped)
      (known (List.mem_toFinset.mpr recorded)) (Nat.not_le.mp long)
    exact (Finset.mem_sdiff.mp left).2 (List.mem_toFinset.mpr recorded)
  · intro fit
    have whole : fetchedNames rs = (recordedNames rs).toFinset :=
      (Finset.image_congr fun name inside =>
        kept_eq_self_iff.mpr (fit name (List.mem_toFinset.mp inside))).trans Finset.image_id
    simp only [Database.dropFetched, Database.dropRecorded, document, whole]

end Fetching

/-! ## Functions during a run -/

section Functions

variable {db after : Database}

theorem functions_foldlM {α : Type} {f : Database → α → Except Failure Database}
    (each : ∀ db a after, f db a = .ok after → after.functions = db.functions) {xs : List α}
    (run : xs.foldlM f db = .ok after) : after.functions = db.functions := by
  induction xs generalizing db with
  | nil =>
      cases run
      rfl
  | cons a rest ih =>
      rw [List.foldlM_cons] at run
      obtain ⟨next, first, others⟩ := bind_eq_ok.mp run
      exact (ih others).trans (each db a next first)

theorem functions_modify {query : String} (run : db.modify query = .ok after) :
    after.functions = db.functions := by
  unfold Database.modify at run
  split at run
  next => cases run
  next rs _ =>
    split at run
    next => cases run
    next changed _ =>
      obtain rfl := Except.ok.inj run
      rfl

theorem functions_modifyOnly {effect : Sql.Effect} (run : db.modifyOnly effect = .ok after) :
    after.functions = db.functions := by
  cases effect with
  | modify query => exact functions_modify run
  | execute command => cases run

theorem functions_perform {effect : Sql.Effect} (run : db.perform effect = .ok after) :
    after.functions = db.functions := by
  cases effect with
  | modify query => exact functions_modify run
  | execute command =>
      simp only [Database.perform] at run
      split at run
      next => cases run
      next => exact functions_foldlM (fun _ _ _ => functions_modifyOnly) run

/-- Statements that are run from their text change no functions. -/
theorem functions_runText {text : String} (run : db.runText text = .ok after) :
    after.functions = db.functions := by
  unfold Database.runText at run
  split at run
  next => cases run
  next vs effects _ =>
    have kept : after.functions = { db with batch := vs }.functions :=
      functions_foldlM (fun _ _ _ => functions_perform) run
    exact kept

theorem functions_storeDocument (run : db.storeDocument = .ok after) :
    after.functions = db.functions := by
  unfold Database.storeDocument at run
  split at run
  next =>
    split at run
    next => cases run
    next =>
      cases run
      rfl
  next => cases run
  next => cases run

/-- Only the statement that drops functions takes any away. -/
theorem functions_subset_of_run {st : Statement} (other : st ≠ .dropRecorded)
    (run : st.run db = .ok after) : db.functions ⊆ after.functions := by
  by_cases passive : st.isPassive = true
  · rw [run_of_isPassive passive] at run
    cases run
    exact Finset.Subset.refl _
  · cases st with
    | dropRecorded => exact absurd rfl other
    | endBatch =>
        cases run
        exact Finset.Subset.refl _
    | raiseIf condition message =>
        rw [run_raiseIf] at run
        split at run
        next => cases run
        next =>
          cases run
          exact Finset.Subset.refl _
    | createFunction f =>
        simp only [Statement.run] at run
        split at run
        next => cases run
        next =>
          cases run
          exact Finset.subset_insert _ _
    | insertConfiguration => exact (functions_storeDocument run).ge
    | setDocument | declareCommand | deleteAttribute | deleteRecords | insertAttribute
    | insertRecord => exact (functions_runText run).ge
    | _ => exact absurd rfl passive

/-- What a script creates is free before it, if it drops nothing. -/
theorem notMem_functions_of_created {script : List Statement}
    (keeps : ∀ st ∈ script, st ≠ .dropRecorded) (run : runScript db script = .ok after)
    {f : SqlFunction} (creates : f ∈ created script) :
    f.name ∉ db.functions := by
  induction script generalizing db with
  | nil => cases creates
  | cons st rest ih =>
      obtain ⟨other, others⟩ := List.forall_mem_cons.mp keeps
      rw [runScript, List.foldlM_cons] at run
      obtain ⟨next, first, later⟩ := bind_eq_ok.mp run
      rcases List.mem_append.mp (created_append [st] rest ▸ creates) with here | there
      · cases st with
        | createFunction g =>
            obtain rfl := List.mem_singleton.mp here
            simp only [Statement.run] at first
            split at first
            next => cases first
            next free => exact free
        | _ => cases here
      · exact fun taken =>
          ih others later there (functions_subset_of_run other first taken)

end Functions

/-! ## Upgrades with fetched names -/

/-- Run a statement, if functions are dropped under the names that are fetched. -/
def Statement.fetch (db : Database) : Statement → Except Failure Database
  | dropRecorded => db.dropFetched
  | st => st.run db

/-- Run the statements of a script in order, with the names that are fetched. -/
def runFetching (db : Database) (script : List Statement) : Except Failure Database :=
  script.foldlM Statement.fetch db

section Upgrade

variable {db after : Database} {script : List Statement}

theorem fetch_eq_run {st : Statement} (other : st ≠ .dropRecorded) : st.fetch db = st.run db := by
  cases st with
  | dropRecorded => exact absurd rfl other
  | _ => rfl

theorem runFetching_eq_runScript (keeps : ∀ st ∈ script, st ≠ .dropRecorded) :
    runFetching db script = runScript db script := by
  induction script generalizing db with
  | nil => rfl
  | cons st rest ih =>
      obtain ⟨other, others⟩ := List.forall_mem_cons.mp keeps
      rw [runFetching, runScript, List.foldlM_cons, List.foldlM_cons, fetch_eq_run other]
      exact congrArg (st.run db >>= ·) (funext fun next => ih others)

/-- What an upgrade does before it drops functions. -/
def beforeDrop : List Statement :=
  header ++ guardMaster ++ guardEmpty ++ sessionSettings ++
    [.comment "Drop every view and security function recorded in the schema document"]

theorem runScript_beforeDrop {functions : Finset String} {rs : List Record} :
    runScript ⟨functions, some rs, []⟩ beforeDrop = .ok ⟨functions, some rs, []⟩ := by
  have parts : beforeDrop = header ++ (guardMaster ++ (guardEmpty ++ (sessionSettings ++
      [.comment "Drop every view and security function recorded in the schema document"]))) := by
    simp [beforeDrop]
  rw [parts, runScript_append (passive_header.runScript _),
    runScript_append (runScript_guardMaster _), runScript_append (runScript_guardEmpty []),
    runScript_append (passive_sessionSettings.runScript _)]
  rfl

/-- What an upgrade does after it dropped functions. -/
def afterDrop (s : Schema) (rs : List Record) : List Statement :=
  .blank :: closeBatch ++
    [.comment "Replace the view, right and security information in the schema document",
      .declareCommand] ++
    deleteRecorded ++ insertGuards s ++ rs.map .insertRecord ++ closeBatch ++
    createFunctions s false ++ commit

theorem ne_dropRecorded_of_mem_afterDrop {rs : List Record} :
    ∀ st ∈ afterDrop s rs, st ≠ .dropRecorded := by
  have guards : ∀ st ∈ insertGuards s, st ≠ .dropRecorded := by
    refine List.forall_mem_flatMap.mpr fun i _ => List.forall_mem_map.mpr fun entry _ => ?_
    exact Statement.noConfusion
  have records : ∀ st ∈ rs.map Statement.insertRecord, st ≠ .dropRecorded :=
    List.forall_mem_map.mpr fun r _ => Statement.noConfusion
  have functions : ∀ st ∈ createFunctions s false, st ≠ .dropRecorded := by
    refine List.forall_mem_flatMap.mpr fun d _ => ?_
    rw [createFunction_eq]
    simp [grantFunction]
  simp only [afterDrop, List.forall_mem_append]
  exact ⟨⟨⟨⟨⟨⟨⟨by decide, by decide⟩, by decide⟩, guards⟩, records⟩, by decide⟩, functions⟩,
    by decide⟩

/-- An upgrade drops functions once, and creates its own after that. -/
theorem upgrade_eq_append (made : upgrade s = .ok script) :
    ∃ rs, script = beforeDrop ++ .dropRecorded :: afterDrop s rs ∧
      created (afterDrop s rs) = (functions s false).map Described.function := by
  have creates := (creates_upgrade made).created_eq
  obtain ⟨views, rights, -, -, rfl⟩ := upgrade_eq_ok made
  have parts : (upgradeFront ++ insertGuards s ++ (views ++ rights).map .insertRecord ++
      closeBatch) ++ createFunctions s false ++ commit =
        beforeDrop ++ .dropRecorded :: afterDrop s (views ++ rights) := by
    simp [upgradeFront, beforeDrop, afterDrop, dropFunctions]
  refine ⟨views ++ rights, parts, ?_⟩
  rw [parts, created_append] at creates
  exact creates

/-- The recorded functions can be dropped, and are if their names fit. -/
theorem dropRecorded_of_upgraded (h : s.Named) (store : Upgraded s₀ s db) :
    ∃ next, db.dropRecorded = .ok next ∧
      (db.dropFetched = .ok next ↔ FunctionNamesFit s₀ s) := by
  obtain ⟨rs, document, rfl⟩ := store
  have known : (recordedNames rs).toFinset ⊆ defaultViews s₀ ∪ functionNames s false :=
    (recordedNames_subset h document).trans Finset.subset_union_right
  have dropped := run_dropRecorded known
  refine ⟨_, dropped, ?_⟩
  rw [← dropped, functionNamesFit_iff]
  simp only [← mem_recordedNames_of_isDocument h document]
  exact dropFetched_eq_dropRecorded_iff rfl known

section Split

variable {functions : Finset String} {rs replaced : List Record}

theorem runScript_split :
    runScript ⟨functions, some rs, []⟩ (beforeDrop ++ .dropRecorded :: afterDrop s replaced) =
      Database.dropRecorded ⟨functions, some rs, []⟩ >>=
        fun next => runScript next (afterDrop s replaced) := by
  rw [runScript_append runScript_beforeDrop, runScript, List.foldlM_cons]
  rfl

/-- Fetching makes a difference for the statement that drops functions only. -/
theorem runFetching_split :
    runFetching ⟨functions, some rs, []⟩ (beforeDrop ++ .dropRecorded :: afterDrop s replaced) =
      Database.dropFetched ⟨functions, some rs, []⟩ >>=
        fun next => runScript next (afterDrop s replaced) := by
  have front : ∀ st ∈ beforeDrop, st ≠ .dropRecorded := by
    decide
  have later (next : Database) :
      runFetching next (afterDrop s replaced) = runScript next (afterDrop s replaced) :=
    runFetching_eq_runScript ne_dropRecorded_of_mem_afterDrop
  have dropping : runFetching ⟨functions, some rs, []⟩
      (beforeDrop ++ .dropRecorded :: afterDrop s replaced) =
        runFetching ⟨functions, some rs, []⟩ (.dropRecorded :: afterDrop s replaced) := by
    rw [runFetching, List.foldlM_append, ← runFetching, runFetching_eq_runScript front,
      runScript_beforeDrop]
    rfl
  rw [dropping, runFetching, List.foldlM_cons, ← funext later]
  rfl

end Split

/-- The function under a name that does not fit stays in the way of its successor. -/
theorem fits_of_runFetching (h : s.Named) (made : upgrade s = .ok script)
    (store : Upgraded s₀ s db) (run : runFetching db script = .ok after) :
    FunctionNamesFit s₀ s := by
  obtain ⟨rs, document, rfl⟩ := store
  obtain ⟨replaced, rfl, creates⟩ := upgrade_eq_append made
  rw [runFetching_split] at run
  obtain ⟨next, dropped, rest⟩ := bind_eq_ok.mp run
  rw [functionNamesFit_iff]
  intro name recorded
  by_contra long
  have member : name ∈ functionNames s false :=
    recordedNames_subset h document
      (List.mem_toFinset.mpr ((mem_recordedNames_of_isDocument h document).mpr recorded))
  have stays := mem_functions_dropFetched dropped (Finset.mem_union_right _ member)
    (Nat.not_le.mp long)
  obtain ⟨d, inside, rfl⟩ := List.mem_map.mp (List.mem_toFinset.mp member)
  refine notMem_functions_of_created ne_dropRecorded_of_mem_afterDrop rest ?_ stays
  rw [creates]
  exact List.mem_map_of_mem inside

/-- If all names fit, it makes no difference that they are fetched. -/
theorem runFetching_of_fits (h : s.Named) {s' : Schema} (made : upgrade s' = .ok script)
    (store : Upgraded s₀ s db) (fits : FunctionNamesFit s₀ s) :
    runFetching db script = runScript db script := by
  obtain ⟨next, dropped, fetched⟩ := dropRecorded_of_upgraded h store
  obtain ⟨rs, document, rfl⟩ := store
  obtain ⟨replaced, rfl, -⟩ := upgrade_eq_append made
  rw [runFetching_split, runScript_split, fetched.mpr fits, dropped]

/-- A store can be upgraded to the schema that it has exactly if the names of its functions
fit. -/
theorem exists_runFetching_iff (h₀ : s₀.Named) (valid : s.Valid) (h : s.Named)
    (covered : Covered s₀ s) (made : upgrade s = .ok script) (store : Upgraded s₀ s db) :
    (∃ after, runFetching db script = .ok after) ↔ FunctionNamesFit s₀ s := by
  constructor
  · rintro ⟨after, run⟩
    exact fits_of_runFetching h made store run
  · intro fits
    obtain ⟨after, run, -⟩ := upgraded_upgrade h₀ h valid h covered made store
    exact ⟨after, (runFetching_of_fits h made store fits).trans run⟩

end Upgrade

/-! ## Finished schemas -/

/-- The table of each enum is made by a passage with the column for names. -/
theorem exists_nameColumn {script : List Statement} (made : init s = .ok script) {e : EnumType}
    (known : e ∈ s.enums) :
    ∃ p ∈ passages script, p.head? = some (tableLine e.name) ∧ nameColumn ∈ p := by
  have inside : .createEnumTable e.name ∈ tableDefinitions script := by
    rw [tableDefinitions_init made]
    exact List.mem_cons_of_mem _ (List.mem_append_left _ (List.mem_append_left _
      (List.mem_map_of_mem known)))
  exact ⟨_, List.mem_filterMap.mpr ⟨_, (List.mem_filter.mp inside).1, rfl⟩, rfl,
    nameColumn_mem_lines e.name⟩

theorem dropLines_mem_passages {script : List Statement} (made : upgrade s = .ok script) :
    dropLines ∈ passages script := by
  obtain ⟨rs, rfl, -⟩ := upgrade_eq_append made
  exact List.mem_filterMap.mpr
    ⟨.dropRecorded, List.mem_append_right _ List.mem_cons_self, rfl⟩

/-- How the names in two scripts for a schema fit the places with a width, and where these places
are: the column of each table of an enum, and the passage that reads and fetches names of functions
to drop them. -/
structure NameWidths (s : Schema) (first next : List Statement) : Prop where
  columns : ∀ e ∈ s.enums, ∃ p ∈ passages first,
    p.head? = some (tableLine e.name) ∧ nameColumn ∈ p
  fetches : ∃ p ∈ passages next, nameVariable ∈ p ∧
    ∀ entry ∈ recordedFunctions, nameQuery entry.1 ∈ p
  rows : (∀ name ∈ insertedNames first, name.length ≤ enumNameWidth) ↔ EnumNamesFit s
  noRows : insertedNames next = []
  inFirst : (∀ name ∈ recorded Entry.isFunction first, name.length ≤ functionNameWidth) ↔
    DefaultViewsFit s ∧ FunctionNamesFit s s
  inNext : (∀ name ∈ recorded Entry.isFunction next, name.length ≤ functionNameWidth) ↔
    FunctionNamesFit s s
  created : ∃ db, runScript .fresh first = .ok db ∧ Upgraded s s db
  dropped : ∀ s₀ db, Upgraded s₀ s db → ∃ after, db.dropRecorded = .ok after ∧
    (db.dropFetched = .ok after ↔ FunctionNamesFit s₀ s)
  again : ∀ s₀ db, s₀.Named → Covered s₀ s → Upgraded s₀ s db →
    ((∃ after, runFetching db next = .ok after) ↔ FunctionNamesFit s₀ s)

/-- The names of enum values and of recorded functions in the scripts for a finished schema fit
exactly if the names fit that the schema declares, and exactly then an upgrade drops the functions
that are recorded. -/
theorem nameWidths_of_finished (finished : s.Finished) :
    ∃ first next, init s = .ok first ∧ upgrade s = .ok next ∧ NameWidths s first next := by
  obtain ⟨d, sound, complete, rfl⟩ := finished.drafts
  have valid := sound.valid complete
  have named := sound.named
  obtain ⟨first, made⟩ := succeeds_init valid
  obtain ⟨next, remade⟩ := succeeds_upgrade valid
  refine ⟨first, next, made, remade, ?_⟩
  constructor
  case columns => exact fun e known => exists_nameColumn made known
  case fetches =>
    exact ⟨dropLines, dropLines_mem_passages remade, nameVariable_mem_dropLines,
      fun _ => nameQuery_mem_dropLines⟩
  case rows => exact forall_insertedNames_init made
  case noRows => exact insertedNames_upgrade remade
  case inFirst =>
    rw [functionNamesFit_iff]
    simp only [mem_recorded_iff (recordedEntries_init made), true_and, or_imp, forall_and,
      List.forall_mem_map, DefaultViewsFit, ItemType.defaultViewFunction, String.length_append]
  case inNext =>
    rw [functionNamesFit_iff]
    simp only [mem_recorded_iff (recordedEntries_upgrade remade), Bool.false_eq_true, false_and,
      false_or]
  case created => exact upgraded_init valid named made
  case dropped => exact fun s₀ db store => dropRecorded_of_upgraded named store
  case again =>
    exact fun s₀ db h₀ covered store =>
      exists_runFetching_iff h₀ valid named covered remade store

theorem nameWidths_sample : Sample.schema.Finished ∧ ∃ first next,
    init Sample.schema = .ok first ∧ upgrade Sample.schema = .ok next ∧
      NameWidths Sample.schema first next :=
  ⟨Sample.schema_finished, nameWidths_of_finished Sample.schema_finished⟩

namespace Sample

/-- A name whose guard is cut off to the name of its default view. -/
def longName : String := String.ofList (List.replicate 88 'P')

def longValue : String := String.ofList (List.replicate 64 'V')

/-- A file with a long name of an enum value and a guarded item type with a long name. -/
def longFile : List Char :=
  (Schema.Sample.opening ++
    ["<Enum Name=\"Mood\">", "<Values>", "<Value Name=\"", longValue, "\" Value=\"1\"/>",
      "</Values>", "</Enum>", "<ItemType Name=\"", longName, "\">", "</ItemType>",
      "<ExtendItemType ", "Name=\"", longName, "\">", "<GrantQueryRight>",
      "<Expression>1</Expression>", "</GrantQueryRight>", "</ExtendItemType>",
      "</StoreSchema>"]).flatMap String.toList

def longSchema : Schema :=
  ⟨[⟨"Mood", [⟨longValue, 1, none⟩], {}, false⟩],
    [⟨longName, [], ["1"], [], [], [], [], [], {}, false⟩], [], [], [], []⟩

theorem longSchema_finished : longSchema.Finished :=
  finished_of_schemaOf? longFile "long.xml" false
    (schemaOf?_of_spelledOut (by repeat constructor) (by decide +kernel))

end Sample

/-- A name of 64 characters is inserted into a table, and instead of the guard of an item type its
default view would be dropped. -/
theorem long_sample : Sample.longSchema.Finished ∧ ∃ first db after,
    init Sample.longSchema = .ok first ∧ runScript .fresh first = .ok db ∧
      (∃ name ∈ insertedNames first, enumNameWidth < name.length) ∧
      (∃ name ∈ recorded Entry.isFunction first, functionNameWidth < name.length) ∧
      db.functions =
        {Sample.longName ++ "$DefaultView", Sample.longName ++ "$DefaultViewSecurity"} ∧
      db.document.map (fun rs => (recordedNames rs).toFinset) =
        some {Sample.longName ++ "$DefaultViewSecurity"} ∧
      db.dropFetched = .ok after ∧
      after.functions = {Sample.longName ++ "$DefaultViewSecurity"} := by
  have finished := Sample.longSchema_finished
  obtain ⟨d, sound, complete, same⟩ := finished.drafts
  have valid : Sample.longSchema.Valid := same ▸ sound.valid complete
  have named : Sample.longSchema.Named := same ▸ sound.named
  obtain ⟨first, made⟩ := succeeds_init valid
  obtain ⟨db, run, rs, document, rfl⟩ := upgraded_init valid named made
  have recorded : (recordedNames rs).toFinset =
      {Sample.longName ++ "$DefaultViewSecurity"} := by
    have all : (recordedNames rs).toFinset = functionNames Sample.longSchema false := by
      ext name
      rw [List.mem_toFinset, mem_recordedNames_of_isDocument named document, mem_functionNames,
        isKeptGuard_self]
    rw [all]
    decide +kernel
  have functions : defaultViews Sample.longSchema ∪ functionNames Sample.longSchema false =
      {Sample.longName ++ "$DefaultView", Sample.longName ++ "$DefaultViewSecurity"} := by
    decide +kernel
  have known : ({Sample.longName ++ "$DefaultView"} : Finset String) ⊆
      {Sample.longName ++ "$DefaultView", Sample.longName ++ "$DefaultViewSecurity"} := by
    decide +kernel
  have left : ({Sample.longName ++ "$DefaultView", Sample.longName ++ "$DefaultViewSecurity"} :
      Finset String) \ {Sample.longName ++ "$DefaultView"} =
        {Sample.longName ++ "$DefaultViewSecurity"} := by
    decide +kernel
  have fetched : fetchedNames rs = {Sample.longName ++ "$DefaultView"} := by
    rw [fetchedNames, recorded]
    decide +kernel
  have guard : Sample.longName ++ "$DefaultViewSecurity" ∈ Script.recorded Entry.isFunction first :=
    (mem_recorded_iff (recordedEntries_init made)).mpr
      (.inr (.inl (isKeptGuard_self.mpr ⟨_, List.mem_singleton.mpr rfl, .query, rfl⟩)))
  have value : Sample.longValue ∈ insertedNames first :=
    (mem_insertedNames_init made).mpr ⟨_, List.mem_singleton.mpr rfl, 1, rfl⟩
  have dropped : Database.dropFetched
      ⟨defaultViews Sample.longSchema ∪ functionNames Sample.longSchema false, some rs, []⟩ =
      .ok ⟨{Sample.longName ++ "$DefaultViewSecurity"}, some rs,
        [("@name", none), (commandVariable, none)]⟩ := by
    simp only [Database.dropFetched, functions, fetched, if_pos known, left]
    rfl
  refine ⟨finished, first, _, _, made, run, ?_, ?_, functions, ?_, dropped, rfl⟩
  · exact ⟨_, value, by decide +kernel⟩
  · exact ⟨_, guard, by decide +kernel⟩
  · exact congrArg some recorded

end LearningStore.Script
