import LearningStore.Proofs.Script.Upgrading

/-!
# Schemas over time

What a store is after it was created for one schema and upgraded to others.  While the schemas
have the same item types, every upgrade runs, and the document and the functions are those of
the first and the last schema.  A schema may also bring guards for item types that the store
does not have.  Nothing records these guards, and the next upgrade finds them in its way.
-/

namespace LearningStore.Script

open LearningStore.Schema
open LearningStore.Text
open LearningStore.Xml

variable {s s₀ : Schema}

/-! ## What the document carries -/

/-- Whether an attribute of an item type holds a guard. -/
def holdsGuard (a : String × String) : Bool :=
  (recordedRights.map securityAttribute).contains a.1

/-- The guards that the record of an item type holds, with the name of the item type. -/
def guardsOf (r : Record) : Option String × List (String × String) :=
  (r.itemTypeName?, r.markup.attributes.filter holdsGuard)

/-- A document that has the item types and the enums of one document, and the guards, the
views and the rights of another one. -/
structure Carries (first last doc : List Record) : Prop where
  kinds : doc = recordsNamed "ItemType" doc ++ recordsNamed "Enum" doc ++
    recordsNamed "View" doc ++ recordsNamed "Right" doc
  itemTypes : (recordsNamed "ItemType" doc).map withoutGuards =
    (recordsNamed "ItemType" first).map withoutGuards
  enums : recordsNamed "Enum" doc = recordsNamed "Enum" first
  guards : ((recordsNamed "ItemType" doc).map guardsOf).Perm
    ((recordsNamed "ItemType" last).map guardsOf)
  views : recordsNamed "View" doc = recordsNamed "View" last
  rights : recordsNamed "Right" doc = recordsNamed "Right" last

/-- The kinds of records in the document of a store. -/
theorem IsDocument.kinds {rs : List Record} (document : IsDocument s₀ s rs) :
    ∃ bare views rights, s₀.itemTypes.mapM (bareRecord s₀) = .ok bare ∧
      s.views.mapM (viewRecord s) = .ok views ∧ s.rights.mapM (rightRecord s) = .ok rights ∧
      recordsNamed "ItemType" rs = bare.map (guarded s.itemTypes) ∧
      recordsNamed "Enum" rs = s₀.enums.map enumRecord ∧ recordsNamed "View" rs = views ∧
      recordsNamed "Right" rs = rights ∧ rs = bare.map (guarded s.itemTypes) ++
        s₀.enums.map enumRecord ++ views ++ rights := by
  obtain ⟨base, views, rights, baseMade, viewsMade, rightsMade, rfl⟩ := document
  obtain ⟨bare, passed, rfl⟩ := map_eq_ok.mp baseMade
  have itemTypes : ∀ r ∈ bare.map (guarded s.itemTypes), r.markup.name = "ItemType" := by
    intro r inside
    obtain ⟨b, member, rfl⟩ := List.mem_map.mp inside
    rw [name_guarded]
    obtain ⟨i, -, made⟩ := (mem_of_mapM passed).mp member
    exact name_bareRecord made
  have replaced := replaced_of_mapM viewsMade rightsMade
  have named := recordsNamed_kinds s₀.enums itemTypes replaced.views replaced.rights
  rw [storeRecords, List.map_append, map_guarded_enumRecord]
  refine ⟨bare, views, rights, passed, viewsMade, rightsMade, (named _).trans ?_,
    (named _).trans ?_, (named _).trans ?_, (named _).trans ?_, rfl⟩ <;> simp

/-- The guards of an item type are those of the schema that has it. -/
theorem guardsOf_guarded {itemTypes : List ItemType} {i : ItemType} {bare : Record}
    (made : bareRecord s i = .ok bare) : guardsOf (guarded itemTypes bare) =
      (some i.name, (itemTypes.find? fun j => j.name == i.name).toList.flatMap
        securityAttributes) := by
  have named := itemTypeName?_bareRecord made
  have kept (j : ItemType) : (securityAttributes j).filter holdsGuard = securityAttributes j := by
    refine List.filter_eq_self.mpr fun a inside => ?_
    obtain ⟨right, function, -, rfl⟩ := mem_securityAttributes.mp inside
    cases right <;> rfl
  have plain : bare.markup.attributes.filter holdsGuard = [] := by
    obtain ⟨members, -, rfl⟩ := map_eq_ok.mp made
    rfl
  rw [guarded, named, Option.bind_some]
  cases itemTypes.find? fun j => j.name == i.name with
  | none => exact Prod.ext named plain
  | some j =>
      refine Prod.ext (itemTypeName?_extend named (securityAttributes j)) ?_
      have filtered : (bare.markup.attributes ++ securityAttributes j).filter holdsGuard =
          securityAttributes j := by
        rw [List.filter_append, plain, kept, List.nil_append]
      exact filtered.trans (List.flatMap_singleton ..).symm

/-- Over the same item types the document of a store carries what the first and the last schema
say. -/
theorem IsDocument.carries (h₀ : s₀.Named) (h : s.Named)
    (same : ∀ name, name ∈ s.itemTypes.map ItemType.name ↔ name ∈ s₀.itemTypes.map ItemType.name)
    {rs₀ rs doc : List Record} (document : IsDocument s₀ s doc) (first : IsDocument s₀ s₀ rs₀)
    (last : IsDocument s s rs) : Carries rs₀ rs doc := by
  obtain ⟨bare₀, -, -, passed₀, -, -, itemTypes₀, enums₀, -, -, -⟩ := first.kinds
  obtain ⟨bare, views, rights, passed, viewsMade, rightsMade, itemTypes, -, ofViews, ofRights, -⟩ :=
    last.kinds
  obtain ⟨bare', views', rights', passed', viewsMade', rightsMade', itemTypes', enums', ofViews',
    ofRights', parts⟩ := document.kinds
  cases passed₀.symm.trans passed'
  cases viewsMade.symm.trans viewsMade'
  cases rightsMade.symm.trans rightsMade'
  have stripped (guards : List ItemType) :
      (bare₀.map (guarded guards)).map withoutGuards = bare₀ := by
    rw [List.map_map]
    refine (List.map_congr_left fun r inside => ?_).trans (List.map_id bare₀)
    obtain ⟨i, -, made⟩ := (mem_of_mapM passed₀).mp inside
    exact withoutGuards_guarded guards (plain_bareRecord made)
  have listed (guards : List ItemType) {t : Schema} {rs : List Record}
      (made : t.itemTypes.mapM (bareRecord t) = .ok rs) :
      (rs.map (guarded guards)).map guardsOf = (t.itemTypes.map ItemType.name).map fun name =>
        (some name, (guards.find? fun j => j.name == name).toList.flatMap securityAttributes) := by
    rw [List.map_map, List.map_map]
    exact map_eq_of_mapM made fun _ _ _ each => guardsOf_guarded each
  have names : (s₀.itemTypes.map ItemType.name).Perm (s.itemTypes.map ItemType.name) :=
    (List.perm_ext_iff_of_nodup h₀.itemTypes_distinct h.itemTypes_distinct).mpr fun name =>
      (same name).symm
  constructor
  case kinds => rw [itemTypes', enums', ofViews', ofRights', parts]
  case itemTypes => rw [itemTypes', itemTypes₀, stripped, stripped]
  case enums => rw [enums', enums₀]
  case guards =>
    rw [itemTypes', itemTypes, listed s.itemTypes passed₀, listed s.itemTypes passed]
    exact names.map _
  case views => rw [ofViews', ofViews]
  case rights => rw [ofRights', ofRights]

/-! ## Runs of scripts -/

theorem wellFormed_of_finished (h : s.Finished) : s.Valid ∧ s.Named := by
  obtain ⟨d, sound, complete, rfl⟩ := h.drafts
  exact ⟨sound.valid complete, sound.named⟩

theorem covered_of_same
    (same : ∀ name, name ∈ s.itemTypes.map ItemType.name ↔ name ∈ s₀.itemTypes.map ItemType.name) :
    Covered s₀ s :=
  fun i inside _ _ => (same i.name).mp (List.mem_map_of_mem inside)

theorem functions_eq_recorded (h : s.Named) (covered : Covered s₀ s) {rs : List Record}
    (document : IsDocument s₀ s rs) : functionNames s false = (recordedNames rs).toFinset :=
  ((functionNames_subset_iff h document).mpr covered).antisymm (recordedNames_subset h document)

/-- What a store for some schemas is: it has the item types and the enums of the first one, and
the guards, views and rights of the last one, and upgrading it once more changes nothing. -/
structure Settled (s₀ s : Schema) (db : Database) : Prop where
  document : ∃ first last doc, records s₀ = .ok first ∧ records s = .ok last ∧
    db.document = some doc ∧ Carries first last doc ∧
    db.functions = defaultViews s₀ ∪ (recordedNames doc).toFinset
  again : ∃ script, upgrade s = .ok script ∧ runScript db script = .ok db

theorem settled_of_upgraded (valid₀ : s₀.Valid) (h₀ : s₀.Named) (valid : s.Valid) (h : s.Named)
    (same : ∀ name, name ∈ s.itemTypes.map ItemType.name ↔ name ∈ s₀.itemTypes.map ItemType.name)
    {db : Database} (upgraded : Upgraded s₀ s db) : Settled s₀ s db := by
  have covered := covered_of_same same
  obtain ⟨script, made⟩ := succeeds_upgrade valid
  obtain ⟨next, run, upgraded'⟩ := upgraded_upgrade h₀ h valid h covered made upgraded
  obtain ⟨rs₀, recorded₀⟩ := succeeds_records valid₀
  obtain ⟨rs, recorded⟩ := succeeds_records valid
  refine ⟨?_, script, made, by rw [run, upgraded'.unique upgraded]⟩
  obtain ⟨doc, document, rfl⟩ := upgraded
  refine ⟨rs₀, rs, doc, recorded₀, recorded, rfl, ?_, ?_⟩
  · exact document.carries h₀ h same (records_eq_storeRecords h₀ recorded₀)
      (records_eq_storeRecords h recorded)
  · exact congrArg (defaultViews s₀ ∪ ·) (functions_eq_recorded h covered document)

/-- A store can be created for a schema and then upgraded to any others with the same item
types, any number of times. -/
theorem settled_of_finished (first : s₀.Finished) (ss : List Schema)
    (others : ∀ s ∈ ss, s.Finished ∧ ∀ name,
      name ∈ s.itemTypes.map ItemType.name ↔ name ∈ s₀.itemTypes.map ItemType.name) :
    ∃ script scripts db, init s₀ = .ok script ∧ ss.mapM upgrade = .ok scripts ∧
      runScript .fresh (script ++ scripts.flatten) = .ok db ∧
      Settled s₀ (ss.getLastD s₀) db := by
  obtain ⟨valid₀, h₀⟩ := wellFormed_of_finished first
  have each : ∀ s ∈ s₀ :: ss, s.Valid ∧ s.Named ∧ ∀ name,
      name ∈ s.itemTypes.map ItemType.name ↔ name ∈ s₀.itemTypes.map ItemType.name := by
    refine List.forall_mem_cons.mpr ⟨⟨valid₀, h₀, fun _ => .rfl⟩, fun s inside => ?_⟩
    obtain ⟨finished, same⟩ := others s inside
    obtain ⟨valid, h⟩ := wellFormed_of_finished finished
    exact ⟨valid, h, same⟩
  have covered : ∀ s ∈ ss, s.Valid ∧ s.Named ∧ Covered s₀ s := by
    intro s inside
    obtain ⟨valid, h, same⟩ := each s (List.mem_cons_of_mem s₀ inside)
    exact ⟨valid, h, covered_of_same same⟩
  obtain ⟨script, made⟩ := succeeds_init valid₀
  obtain ⟨scripts, allMade⟩ := Succeeds.mapM fun s inside => succeeds_upgrade (covered s inside).1
  obtain ⟨created, run, store⟩ := upgraded_init valid₀ h₀ made
  obtain ⟨db, runs, upgraded⟩ :=
    upgraded_upgrades h₀ covered allMade h₀ (covered_of_same fun _ => .rfl) store
  obtain ⟨valid, h, same⟩ := each (ss.getLastD s₀) List.getLastD_mem_cons
  refine ⟨script, scripts, db, made, allMade, ?_, ?_⟩
  · rw [runScript_append run, runs]
  · exact settled_of_upgraded valid₀ h₀ valid h same upgraded

theorem settled_sample :
    (∀ s ∈ [Sample.schema, Sample.baseSchema, Sample.baseSchema], s.Finished ∧ ∀ name,
      name ∈ s.itemTypes.map ItemType.name ↔
        name ∈ Sample.baseSchema.itemTypes.map ItemType.name) ∧
      ∃ script scripts db, init Sample.baseSchema = .ok script ∧
        [Sample.schema, Sample.baseSchema, Sample.baseSchema].mapM upgrade = .ok scripts ∧
        runScript .fresh (script ++ scripts.flatten) = .ok db ∧
        Settled Sample.baseSchema Sample.baseSchema db := by
  have others : ∀ s ∈ [Sample.schema, Sample.baseSchema, Sample.baseSchema], s.Finished ∧
      ∀ name, name ∈ s.itemTypes.map ItemType.name ↔
        name ∈ Sample.baseSchema.itemTypes.map ItemType.name := by
    intro s inside
    simp only [List.mem_cons, List.not_mem_nil, or_false, or_self] at inside
    rcases inside with rfl | rfl
    · exact ⟨Sample.schema_finished, fun _ => .rfl⟩
    · exact ⟨Sample.baseSchema_finished, fun _ => .rfl⟩
  exact ⟨others, settled_of_finished Sample.baseSchema_finished _ others⟩

/-! ## Guards without a record -/

/-- One upgrade of a new store always runs. -/
theorem upgraded_of_finished (first : s₀.Finished) (second : s.Finished) :
    ∃ creation script db, init s₀ = .ok creation ∧ upgrade s = .ok script ∧
      runScript .fresh (creation ++ script) = .ok db ∧ Upgraded s₀ s db := by
  obtain ⟨valid₀, h₀⟩ := wellFormed_of_finished first
  obtain ⟨valid, h⟩ := wellFormed_of_finished second
  obtain ⟨creation, created⟩ := succeeds_init valid₀
  obtain ⟨script, made⟩ := succeeds_upgrade valid
  obtain ⟨between, run, store⟩ := upgraded_init valid₀ h₀ created
  obtain ⟨db, rerun, upgraded⟩ :=
    upgraded_upgrade h₀ h₀ valid h (covered_of_same fun _ => .rfl) made store
  exact ⟨creation, script, db, created, made, by rw [runScript_append run, rerun], upgraded⟩

/-- The created security functions are recorded if the guarded item types are in the base, and
only then. -/
theorem recorded_iff_covered (h : s.Named) {script : List Statement}
    (made : upgrade s = .ok script) {doc : List Record} (document : IsDocument s₀ s doc) :
    (∀ f ∈ created script, returnsBit f = true → f.name ∈ recordedNames doc) ↔
      Covered s₀ s := by
  rw [(creates_upgrade made).created_eq, List.forall_mem_map]
  constructor
  · intro recorded i inside right guarded
    have guard : i.securityFunction? right = some (i.name ++ right.functionSuffix) := by
      simp [ItemType.securityFunction?, guarded]
    have slot : itemRightSlot i right ∈ slots s false :=
      mem_slots_iff.mpr (.inl ⟨i, inside, .inr ⟨right, rfl⟩⟩)
    have held : (⟨itemRightPurpose i right, ⟨i.name ++ right.functionSuffix,
        itemRightParameters i right, .granted (i.expressions right)⟩⟩ : Described) ∈
          (itemRightSlot i right).functions := by
      simp [itemRightSlot, itemRightFunction, guard]
    have known := recorded _ (mem_functions_of_slot slot held).1 (returnsBit_eq _)
    exact covered_of_recorded h document inside guard known
  · intro covered d inside _
    have created : d.function.name ∈ functionNames s false :=
      List.mem_toFinset.mpr (List.mem_map.mpr ⟨d, inside, rfl⟩)
    exact List.mem_toFinset.mp ((functionNames_subset_iff h document).mpr covered created)

/-- After one upgrade of a new store the guards that it created are recorded, and the same
upgrade runs again, if every guarded item type is one of the first schema, and only then. -/
theorem rerun_iff_covered (first : s₀.Finished) (second : s.Finished) :
    ∃ creation script db doc, init s₀ = .ok creation ∧ upgrade s = .ok script ∧
      runScript .fresh (creation ++ script) = .ok db ∧ db.document = some doc ∧
      ((∀ f ∈ created script, returnsBit f = true → f.name ∈ recordedNames doc) ↔
        Covered s₀ s) ∧
      ((∃ next, runScript db script = .ok next) ↔ Covered s₀ s) := by
  obtain ⟨creation, script, db, createdScript, made, run, upgraded⟩ :=
    upgraded_of_finished first second
  obtain ⟨-, h₀⟩ := wellFormed_of_finished first
  obtain ⟨valid, h⟩ := wellFormed_of_finished second
  have again : (∃ next, runScript db script = .ok next) ↔ Covered s₀ s := by
    constructor
    · rintro ⟨next, rerun⟩
      by_contra uncovered
      obtain ⟨name, -, stopped⟩ := upgrade_fails h₀ valid h uncovered made upgraded
      cases rerun.symm.trans stopped
    · intro covered
      obtain ⟨next, rerun, -⟩ := upgraded_upgrade h₀ h valid h covered made upgraded
      exact ⟨next, rerun⟩
  obtain ⟨doc, document, rfl⟩ := upgraded
  exact ⟨creation, script, _, doc, createdScript, made, run, rfl,
    recorded_iff_covered h made document, again⟩

theorem rerun_sample : Sample.baseSchema.Finished ∧ Sample.schema.Finished ∧
    ∃ creation script db doc, init Sample.baseSchema = .ok creation ∧
      upgrade Sample.schema = .ok script ∧
      runScript .fresh (creation ++ script) = .ok db ∧ db.document = some doc ∧
      ((∀ f ∈ created script, returnsBit f = true → f.name ∈ recordedNames doc) ↔
        Covered Sample.baseSchema Sample.schema) ∧
      ((∃ next, runScript db script = .ok next) ↔
        Covered Sample.baseSchema Sample.schema) :=
  ⟨Sample.baseSchema_finished, Sample.schema_finished,
    rerun_iff_covered Sample.baseSchema_finished Sample.schema_finished⟩

/-- A store without item types that is upgraded to a schema with a guarded one has a guard that
is not recorded, and the next upgrade stops at it. -/
theorem unrecorded_of_emptySchema : Sample.emptySchema.Finished ∧ Sample.baseSchema.Finished ∧
    ∃ creation script db doc, init Sample.emptySchema = .ok creation ∧
      upgrade Sample.baseSchema = .ok script ∧
      runScript .fresh (creation ++ script) = .ok db ∧ db.document = some doc ∧
      (∃ f ∈ created script, returnsBit f = true ∧ f.name ∉ recordedNames doc) ∧
      runScript db script = .error (.functionExists "Pet$AddSecurity") := by
  refine ⟨Sample.emptySchema_finished, Sample.baseSchema_finished, ?_⟩
  obtain ⟨creation, script, db, createdScript, made, run, upgraded⟩ :=
    upgraded_of_finished Sample.emptySchema_finished Sample.baseSchema_finished
  obtain ⟨-, h₀⟩ := wellFormed_of_finished Sample.emptySchema_finished
  obtain ⟨valid, h⟩ := wellFormed_of_finished Sample.baseSchema_finished
  have uncovered : ¬ Covered Sample.emptySchema Sample.baseSchema := by
    intro covered
    have known := covered _ List.mem_cons_self .add (List.cons_ne_nil "@a" [])
    cases known
  obtain ⟨name, only, stopped⟩ := upgrade_fails h₀ valid h uncovered made upgraded
  have all : functionNames Sample.baseSchema false = {"Pet$AddSecurity"} := by
    decide
  rw [all, Finset.mem_singleton] at only
  subst only
  obtain ⟨doc, document, rfl⟩ := upgraded
  have unrecorded := mt (recorded_iff_covered h made document).mp uncovered
  simp only [not_forall, exists_prop] at unrecorded
  exact ⟨creation, script, _, doc, createdScript, made, run, rfl, unrecorded, stopped⟩

end LearningStore.Script
