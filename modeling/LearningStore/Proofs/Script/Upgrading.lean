import LearningStore.Proofs.Compile.Generation
import LearningStore.Proofs.Script.StoredNames

/-!
# Upgrades of a store

A store is created for one schema and upgraded to others.  After every script its functions
are the default views of the first schema with the guards, views and rights of the last one,
and its document is the base of the first schema with what the last one says about guards,
views and rights.  An upgrade can drop what the one before it created if the document recorded
all of it, and so it does if every guarded item type has a record in the base.
-/

namespace LearningStore.Script

open LearningStore.Schema
open LearningStore.Text
open LearningStore.Xml

variable {s s₀ s' : Schema}

/-! ## Parts of a run -/

section Parts

variable {functions : Finset String} {rs : List Record}

theorem passive_header : Passive header := by
  simp [Passive, header, Statement.isPassive]

theorem passive_sessionSettings : Passive sessionSettings := by
  simp [Passive, sessionSettings, Statement.isPassive]

/-- A database with a stored document can be upgraded. -/
theorem runScript_guardEmpty (vs : Sql.Variables) :
    runScript ⟨functions, some rs, vs⟩ guardEmpty = .ok ⟨functions, some rs, vs⟩ := by
  have passed (message : String) :
      Statement.run ⟨functions, some rs, vs⟩ (.raiseIf missingDocument message) =
        .ok ⟨functions, some rs, vs⟩ := by
    rw [run_raiseIf]
    exact if_neg fun both => nomatch both.2
  exact runScript_cons (passed _)

theorem run_dropRecorded (known : (recordedNames rs).toFinset ⊆ functions) :
    Statement.run ⟨functions, some rs, []⟩ .dropRecorded =
      .ok ⟨functions \ (recordedNames rs).toFinset, some rs,
        [("@name", none), (commandVariable, none)]⟩ := by
  have dropped : Database.dropRecorded ⟨functions, some rs, []⟩ =
      if (recordedNames rs).toFinset ⊆ functions then
        .ok ⟨functions \ (recordedNames rs).toFinset, some rs,
          [("@name", none), (commandVariable, none)]⟩
      else .error .functionMissing := rfl
  exact dropped.trans (if_pos known)

theorem run_declareCommand :
    Statement.run ⟨functions, some rs, []⟩ .declareCommand =
      .ok ⟨functions, some rs, [(commandVariable, none)]⟩ := by
  have text : Statement.run ⟨functions, some rs, []⟩ .declareCommand =
      Database.runText ⟨functions, some rs, []⟩
        (renderLines Statement.declareCommand.lines) := rfl
  rw [text, Database.runText, evaluate_declareCommand]
  rfl

/-- What an upgrade does before it writes: it drops the recorded functions and takes guards,
views and rights out of the document. -/
theorem runScript_upgradeFront (known : (recordedNames rs).toFinset ⊆ functions) :
    runScript ⟨functions, some rs, []⟩ upgradeFront =
      .ok ⟨functions \ (recordedNames rs).toFinset,
        some (((rs.map withoutGuards).filter fun r => r.markup.name != "View").filter
          fun r => r.markup.name != "Right"), [(commandVariable, none)]⟩ := by
  have dropped : runScript ⟨functions, some rs, []⟩ (dropFunctions ++ closeBatch) =
      .ok ⟨functions \ (recordedNames rs).toFinset, some rs, []⟩ := by
    have commented : runScript ⟨functions, some rs, []⟩
        [.comment "Drop every view and security function recorded in the schema document"] =
        .ok ⟨functions, some rs, []⟩ := rfl
    have parts : dropFunctions ++ closeBatch =
        [.comment "Drop every view and security function recorded in the schema document"] ++
          .dropRecorded :: .blank :: closeBatch := rfl
    rw [parts, runScript_append commented, runScript_cons (run_dropRecorded known)]
    rfl
  have declared : runScript ⟨functions \ (recordedNames rs).toFinset, some rs, []⟩
      [.comment "Replace the view, right and security information in the schema document",
        .declareCommand] =
      .ok ⟨functions \ (recordedNames rs).toFinset, some rs, [(commandVariable, none)]⟩ :=
    runScript_cons run_declareCommand
  have parts : upgradeFront = header ++ (guardMaster ++ (guardEmpty ++ (sessionSettings ++
      (dropFunctions ++ closeBatch ++
        ([.comment "Replace the view, right and security information in the schema document",
          .declareCommand] ++ deleteRecorded))))) := by
    simp [upgradeFront]
  rw [parts, runScript_append (passive_header.runScript _),
    runScript_append (runScript_guardMaster _), runScript_append (runScript_guardEmpty []),
    runScript_append (passive_sessionSettings.runScript _), runScript_append dropped,
    runScript_append declared, runScript_deleteRecorded]

/-- An upgrade replaces guards, views and rights in the document. -/
theorem runScript_replaceDocument {base views rights newViews newRights : List Record}
    (hb : Base base) (replaced : Replaced views rights) (valid : s'.Valid) (h : s'.Named)
    (viewsMade : s'.views.mapM (viewRecord s') = .ok newViews)
    (rightsMade : s'.rights.mapM (rightRecord s') = .ok newRights)
    (document : rs = storeRecords s base views rights)
    (known : (recordedNames rs).toFinset ⊆ functions) :
    runScript ⟨functions, some rs, []⟩
      (upgradeFront ++ insertGuards s' ++ (newViews ++ newRights).map .insertRecord ++
        closeBatch) =
      .ok ⟨functions \ (recordedNames rs).toFinset,
        some (storeRecords s' base newViews newRights), []⟩ := by
  have front := runScript_upgradeFront known
  generalize functions \ (recordedNames rs).toFinset = kept at front ⊢
  rw [document, base_of_storeRecords hb replaced] at front
  have guards : runScript ⟨kept, some base, [(commandVariable, none)]⟩ (insertGuards s') =
      .ok ⟨kept, some (base.map (guarded s'.itemTypes)), [(commandVariable, none)]⟩ :=
    runScript_guards valid.itemTypes h.itemTypes_distinct hb.distinct
      fun r inside _ _ _ => hb.plain r inside
  have simple : ∀ r ∈ newViews ++ newRights, r.Simple := List.forall_mem_append.mpr
    ⟨forall_mem_of_mapM viewsMade fun v member _ each => simple_viewRecord valid member each,
      forall_mem_of_mapM rightsMade fun r member _ each => simple_rightRecord valid member each⟩
  obtain ⟨after, inserted⟩ : ∃ after,
      runScript ⟨kept, some (base.map (guarded s'.itemTypes)), [(commandVariable, none)]⟩
        ((newViews ++ newRights).map .insertRecord) =
        .ok ⟨kept, some (base.map (guarded s'.itemTypes) ++ (newViews ++ newRights)),
          [(commandVariable, after)]⟩ :=
    runScript_insertRecords simple none
  rw [document, List.append_assoc, List.append_assoc, runScript_append front,
    runScript_append guards, runScript_append inserted, runScript_closeBatch, storeRecords,
    List.append_assoc]

end Parts

/-! ## Stores -/

/-- The document of a store that was created for one schema and upgraded to another. -/
def IsDocument (s₀ s : Schema) (rs : List Record) : Prop :=
  ∃ base views rights, baseRecords s₀ = .ok base ∧ s.views.mapM (viewRecord s) = .ok views ∧
    s.rights.mapM (rightRecord s) = .ok rights ∧ rs = storeRecords s base views rights

/-- A store that was created for one schema and upgraded to another. -/
def Upgraded (s₀ s : Schema) (db : Database) : Prop :=
  ∃ rs, IsDocument s₀ s rs ∧ db = ⟨defaultViews s₀ ∪ functionNames s false, some rs, []⟩

/-- Every item type of a schema that is guarded is one of the schema before. -/
def Covered (s₀ s : Schema) : Prop :=
  ∀ i ∈ s.itemTypes, ∀ right, i.expressions right ≠ [] →
    i.name ∈ s₀.itemTypes.map ItemType.name

theorem IsDocument.unique {a b : List Record} (ha : IsDocument s₀ s a) (hb : IsDocument s₀ s b) :
    a = b := by
  obtain ⟨base, views, rights, baseMade, viewsMade, rightsMade, rfl⟩ := ha
  obtain ⟨base', views', rights', baseMade', viewsMade', rightsMade', rfl⟩ := hb
  rw [Except.ok.inj (baseMade.symm.trans baseMade'),
    Except.ok.inj (viewsMade.symm.trans viewsMade'),
    Except.ok.inj (rightsMade.symm.trans rightsMade')]

/-- The two schemas determine the store. -/
theorem Upgraded.unique {a b : Database} (ha : Upgraded s₀ s a) (hb : Upgraded s₀ s b) :
    a = b := by
  obtain ⟨rs, first, rfl⟩ := ha
  obtain ⟨rs', second, rfl⟩ := hb
  rw [first.unique second]

theorem replaced_of_mapM {views rights : List Record}
    (viewsMade : s.views.mapM (viewRecord s) = .ok views)
    (rightsMade : s.rights.mapM (rightRecord s) = .ok rights) : Replaced views rights :=
  ⟨forall_mem_of_mapM viewsMade fun _ _ _ each => name_viewRecord each,
    forall_mem_of_mapM rightsMade fun _ _ _ each => name_rightRecord each⟩

section Recorded

variable {rs : List Record}

theorem mem_recordedNames_of_isDocument (h : s.Named) (document : IsDocument s₀ s rs)
    {name : String} :
    name ∈ recordedNames rs ↔ IsKeptGuard s₀ s name ∨ IsViewOrRight s name := by
  obtain ⟨base, views, rights, baseMade, viewsMade, rightsMade, rfl⟩ := document
  exact mem_recordedNames_storeRecords h baseMade viewsMade rightsMade

/-- The document records functions of the last schema only. -/
theorem recordedNames_subset (h : s.Named) (document : IsDocument s₀ s rs) :
    (recordedNames rs).toFinset ⊆ functionNames s false := by
  intro name recorded
  rw [List.mem_toFinset, mem_recordedNames_of_isDocument h document] at recorded
  rw [mem_functionNames]
  rcases recorded with ⟨i, inside, -, guard⟩ | other
  · exact .inl ⟨i, inside, guard⟩
  · exact .inr other

theorem expressions_ne_nil {i : ItemType} {right : ItemRight} {name : String}
    (guard : i.securityFunction? right = some name) : i.expressions right ≠ [] := by
  intro none_left
  simp [ItemType.securityFunction?, none_left] at guard

/-- A guard is recorded if its item type is in the base. -/
theorem covered_of_recorded (h : s.Named) (document : IsDocument s₀ s rs) {i : ItemType}
    (inside : i ∈ s.itemTypes) {right : ItemRight} {name : String}
    (guard : i.securityFunction? right = some name) (recorded : name ∈ recordedNames rs) :
    i.name ∈ s₀.itemTypes.map ItemType.name := by
  have slot {j : ItemType} (member : j ∈ s.itemTypes) (kind : ItemRight) :
      itemRightSlot j kind ∈ slots s false :=
    mem_slots_iff.mpr (.inl ⟨j, member, .inr ⟨kind, rfl⟩⟩)
  have named {j : ItemType} {kind : ItemRight} (found : j.securityFunction? kind = some name) :
      (itemRightSlot j kind).name = name := by
    unfold ItemType.securityFunction? at found
    split at found
    next => cases found
    next => exact Option.some.inj found
  have only {x : Slot} (other : x ∈ slots s false) (same : x.name = name) :
      x.owner = i.name ∧ x.ending = right.functionSuffix := by
    rw [slot_eq_of_name_eq h other (slot inside right) (same.trans (named guard).symm)]
    exact ⟨rfl, rfl⟩
  have suffix (ending : String) (short : ending = "" ∨ ending = "$Security") :
      ending ≠ right.functionSuffix := by
    rcases short with rfl | rfl <;> cases right <;> decide
  rcases (mem_recordedNames_of_isDocument h document).mp recorded with
    ⟨j, member, known, kind, found⟩ | ⟨v, member, view⟩ | ⟨r, member, found⟩
  · exact (only (slot member kind) (named found)).1 ▸ known
  · rcases view with same | found
    · have viewed := only (mem_slots_iff.mpr (.inr (.inl ⟨v, member, .inl rfl⟩)))
        (String.append_empty.trans same)
      exact absurd viewed.2 (suffix "" (.inl rfl))
    · unfold View.securityFunction? at found
      split at found
      next => cases found
      next =>
        have secured := only (mem_slots_iff.mpr (.inr (.inl ⟨v, member, .inr rfl⟩)))
          (Option.some.inj found)
        exact absurd secured.2 (suffix "$Security" (.inr rfl))
  · unfold Right.securityFunction? at found
    split at found
    next => cases found
    next =>
      have granted := only (mem_slots_iff.mpr (.inr (.inr ⟨r, member, rfl⟩)))
        (String.append_empty.trans (Option.some.inj found))
      exact absurd granted.2 (suffix "" (.inl rfl))

/-- The document records all functions if the guarded item types are in the base, and only
then. -/
theorem functionNames_subset_iff (h : s.Named) (document : IsDocument s₀ s rs) :
    functionNames s false ⊆ (recordedNames rs).toFinset ↔ Covered s₀ s := by
  constructor
  · intro all i inside right guarded
    have guard : i.securityFunction? right = some (i.name ++ right.functionSuffix) := by
      simp [ItemType.securityFunction?, guarded]
    have created : i.name ++ right.functionSuffix ∈ functionNames s false :=
      mem_functionNames.mpr (.inl ⟨i, inside, right, guard⟩)
    exact covered_of_recorded h document inside guard (List.mem_toFinset.mp (all created))
  · intro covered name created
    rw [List.mem_toFinset, mem_recordedNames_of_isDocument h document]
    rcases mem_functionNames.mp created with ⟨i, inside, right, guard⟩ | other
    · exact .inl ⟨i, inside, covered i inside right (expressions_ne_nil guard), right, guard⟩
    · exact .inr other

end Recorded

/-! ## Steps -/

/-- An upgrade comes to the functions with the new document and without the functions that
the old one recorded. -/
theorem runScript_untilFunctions (h₀ : s₀.Named) (valid : s'.Valid) (h' : s'.Named)
    {script : List Statement} (made : upgrade s' = .ok script) {functions : Finset String}
    {rs : List Record} (document : IsDocument s₀ s rs)
    (known : (recordedNames rs).toFinset ⊆ functions) :
    ∃ front rs', script = front ++ (createFunctions s' false ++ commit) ∧
      IsDocument s₀ s' rs' ∧ runScript ⟨functions, some rs, []⟩ front =
        .ok ⟨functions \ (recordedNames rs).toFinset, some rs', []⟩ := by
  obtain ⟨base, views, rights, baseMade, viewsMade, rightsMade, same⟩ := document
  obtain ⟨newViews, newRights, newViewsMade, newRightsMade, rfl⟩ := upgrade_eq_ok made
  refine ⟨_, storeRecords s' base newViews newRights, List.append_assoc .., ?_, ?_⟩
  · exact ⟨base, newViews, newRights, baseMade, newViewsMade, newRightsMade, rfl⟩
  · exact runScript_replaceDocument (base_baseRecords h₀ baseMade)
      (replaced_of_mapM viewsMade rightsMade) valid h' newViewsMade newRightsMade same known

theorem run_setDocument (rs : List Record) :
    Statement.run .fresh (.setDocument rs) =
      .ok ⟨∅, none, [(schemaVariable, some (documentText rs))]⟩ := by
  have text : Statement.run .fresh (.setDocument rs) =
      Database.runText ⟨∅, none, []⟩ (renderLines (documentLines rs)) := rfl
  rw [text, Database.runText, evaluate_documentLines]
  rfl

/-- The text of a document is stored as its records. -/
theorem run_insertConfiguration {rs : List Record} (simple : ∀ r ∈ rs, r.Simple) :
    Statement.run ⟨∅, none, [(schemaVariable, some (documentText rs))]⟩ .insertConfiguration =
      .ok ⟨∅, some rs, [(schemaVariable, some (documentText rs))]⟩ := by
  obtain ⟨d, parsed, read⟩ := parse_documentText simple
  have opened : ((Document.parse (documentText rs)).toOption.bind fun d => recordsOf? d.root) =
      some rs := by
    rw [parsed, Except.toOption, Option.bind_some, read]
  have held : [(schemaVariable, some (documentText rs))].lookup schemaVariable =
      some (some (documentText rs)) := List.lookup_cons_self
  simp only [Statement.run, Database.storeDocument, held, opened]

/-- A store can be created, and it is the store of its schema. -/
theorem upgraded_init (valid : s.Valid) (h : s.Named) {script : List Statement}
    (made : init s = .ok script) : ∃ db, runScript .fresh script = .ok db ∧ Upgraded s s db := by
  obtain ⟨document, constraints, recorded, constrained, rfl⟩ := init_eq_ok made
  have front : runScript .fresh (initFront s) = .ok .fresh := by
    have configured : Passive (sessionSettings ++ snippets s.sqlBefore ++
        [.comment "Create the table holding the engine version and the schema document",
          .createConfiguration]) :=
      (passive_sessionSettings.append (passive_snippets _)).append
        (by simp [Passive, Statement.isPassive])
    have parts : initFront s = header ++ (guardMaster ++ (sessionSettings ++
        snippets s.sqlBefore ++
        [.comment "Create the table holding the engine version and the schema document",
          .createConfiguration])) := by
      simp [initFront]
    rw [parts, runScript_append (passive_header.runScript _),
      runScript_append (runScript_guardMaster _), configured.runScript]
  have stored : runScript .fresh (.setDocument document :: initMiddle s constraints) =
      .ok ⟨∅, some document, []⟩ := by
    have parts : initMiddle s constraints = .insertConfiguration :: (.blank ::
        (createRole ++ s.enums.flatMap enumTable ++ s.itemTypes.flatMap itemTypeTable ++
          constraints.flatten) ++ closeBatch) := by
      simp [initMiddle]
    have tables : Passive (.blank :: (createRole ++ s.enums.flatMap enumTable ++
        s.itemTypes.flatMap itemTypeTable ++ constraints.flatten)) :=
      List.forall_mem_cons.mpr ⟨rfl, passive_tables constrained⟩
    rw [runScript_cons (run_setDocument document), parts,
      runScript_cons (run_insertConfiguration (simple_records valid recorded)),
      runScript_append (tables.runScript _), runScript_closeBatch]
  have created : runScript ⟨∅, some document, []⟩ (createFunctions s true) =
      .ok ⟨∅ ∪ functionNames s true, some document, []⟩ :=
    runScript_createFunctions (functions_names_distinct h true) fun d _ => Finset.notMem_empty _
  have back : Passive (snippets (s.itemTypes.flatMap fun i => i.sqlAfter) ++
      snippets s.sqlAfter) :=
    (passive_snippets _).append (passive_snippets _)
  refine ⟨_, ?_, document, records_eq_storeRecords h recorded, rfl⟩
  rw [List.append_assoc, List.append_assoc, runScript_append front, runScript_append stored,
    runScript_append created, initBack, runScript_append (back.runScript _), runScript_commit,
    Finset.empty_union, functionNames_withDefaultViews]

/-- A store whose guards are all recorded can be upgraded. -/
theorem upgraded_upgrade (h₀ : s₀.Named) (h : s.Named) (valid : s'.Valid) (h' : s'.Named)
    (covered : Covered s₀ s) {script : List Statement} (made : upgrade s' = .ok script)
    {db : Database} (store : Upgraded s₀ s db) :
    ∃ db', runScript db script = .ok db' ∧ Upgraded s₀ s' db' := by
  obtain ⟨rs, document, rfl⟩ := store
  have recorded : (recordedNames rs).toFinset = functionNames s false :=
    (recordedNames_subset h document).antisymm ((functionNames_subset_iff h document).mpr covered)
  obtain ⟨front, rs', rfl, document', run⟩ := runScript_untilFunctions h₀ valid h' made document
    (recorded.subset.trans Finset.subset_union_right)
  have dropped : (defaultViews s₀ ∪ functionNames s false) \ (recordedNames rs).toFinset =
      defaultViews s₀ := by
    rw [recorded, Finset.union_sdiff_right]
    exact Finset.sdiff_eq_self_of_disjoint (disjoint_defaultViews h₀ h)
  have free : ∀ d ∈ functions s' false, d.function.name ∉ defaultViews s₀ := by
    intro d inside default
    refine Finset.disjoint_left.mp (disjoint_defaultViews h₀ h') default ?_
    exact List.mem_toFinset.mpr (List.mem_map.mpr ⟨d, inside, rfl⟩)
  rw [dropped] at run
  refine ⟨_, ?_, rs', document', rfl⟩
  rw [runScript_append run, createFunctions,
    runScript_append (runScript_createFunctions (functions_names_distinct h' false) free),
    runScript_commit]
  rfl

/-- If a guard is not recorded, the same upgrade stops the next time at a function that is
still there. -/
theorem upgrade_fails (h₀ : s₀.Named) (valid : s.Valid) (h : s.Named) (uncovered : ¬ Covered s₀ s)
    {script : List Statement} (made : upgrade s = .ok script) {db : Database}
    (store : Upgraded s₀ s db) :
    ∃ name ∈ functionNames s false,
      runScript db script = .error (.functionExists name) := by
  obtain ⟨rs, document, rfl⟩ := store
  obtain ⟨name, created, unrecorded⟩ := Finset.not_subset.mp
    (mt (functionNames_subset_iff h document).mp uncovered)
  obtain ⟨front, rs', rfl, -, run⟩ := runScript_untilFunctions h₀ valid h made document
    ((recordedNames_subset h document).trans Finset.subset_union_right)
  have left : name ∈ (defaultViews s₀ ∪ functionNames s false) \ (recordedNames rs).toFinset :=
    Finset.mem_sdiff.mpr ⟨Finset.mem_union_right _ created, unrecorded⟩
  obtain ⟨d, inside, rfl⟩ := List.mem_map.mp (List.mem_toFinset.mp created)
  obtain ⟨clash, member, stopped⟩ := runScript_createFunctions_error ⟨d, inside, left⟩
  refine ⟨clash, List.mem_toFinset.mpr member, ?_⟩
  rw [runScript_append run]
  exact runScript_append_error stopped _

/-- Where all guarded item types are in the base, upgrades can follow each other. -/
theorem upgraded_upgrades (h₀ : s₀.Named) {ss : List Schema}
    (each : ∀ s ∈ ss, s.Valid ∧ s.Named ∧ Covered s₀ s) {scripts : List (List Statement)}
    (made : ss.mapM upgrade = .ok scripts) (h : s.Named) (covered : Covered s₀ s)
    {db : Database} (store : Upgraded s₀ s db) :
    ∃ last, runScript db scripts.flatten = .ok last ∧ Upgraded s₀ (ss.getLastD s) last := by
  have results := mapM_eq_ok.mp made
  clear made
  induction results generalizing s db with
  | nil => exact ⟨db, rfl, store⟩
  | cons first _ ih =>
      obtain ⟨⟨valid', h', covered'⟩, others⟩ := List.forall_mem_cons.mp each
      obtain ⟨next, run, upgraded⟩ := upgraded_upgrade h₀ h valid' h' covered first store
      obtain ⟨last, runs, final⟩ := ih others h' covered' upgraded
      refine ⟨last, ?_, ?_⟩
      · rw [List.flatten_cons, runScript_append run, runs]
      · rw [List.getLastD_cons]
        exact final

end LearningStore.Script
