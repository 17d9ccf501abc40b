import LearningStore.Proofs.Script.Database
import LearningStore.Proofs.Script.FunctionNames

/-!
# Guards in the stored document

An upgrade takes the guards from the records of item types and puts back those of another
schema, and it replaces the records of views and rights.  What stays is the base: the item
types and the enums of the schema with which the store was created.
-/

namespace LearningStore.Script

open LearningStore.Schema
open LearningStore.Text
open LearningStore.Xml

/-! ## Documents over a base -/

/-- The record of an item type with the guards that a schema has for it. -/
def guarded (itemTypes : List ItemType) (r : Record) : Record :=
  match r.itemTypeName?.bind fun name => itemTypes.find? fun i => i.name == name with
  | some i => r.extend (securityAttributes i)
  | none => r

/-- Records of item types with distinct names. -/
def DistinctItemTypes (rs : List Record) : Prop :=
  (rs.filterMap Record.itemTypeName?).Nodup

/-- Records of item types without guards, no two of one name, and records of enums. -/
structure Base (base : List Record) : Prop where
  kinds : ∀ r ∈ base, r.markup.name = "ItemType" ∨ r.markup.name = "Enum"
  plain : ∀ r ∈ base, ∀ right, r.hasAttribute (securityAttribute right) = false
  distinct : DistinctItemTypes base

/-- The document of a store: a base with the guards of a schema, views and rights. -/
def storeRecords (s : Schema) (base views rights : List Record) : List Record :=
  base.map (guarded s.itemTypes) ++ views ++ rights

/-- Records of views and of rights. -/
structure Replaced (views rights : List Record) : Prop where
  views : ∀ r ∈ views, r.markup.name = "View"
  rights : ∀ r ∈ rights, r.markup.name = "Right"

section Names

variable (r : Record) (itemTypes : List ItemType)

@[simp] theorem name_extend (more : List (String × String)) :
    (r.extend more).markup.name = r.markup.name := rfl

@[simp] theorem extend_nil : r.extend [] = r := by
  simp [Record.extend]

@[simp] theorem extend_extend (a b : List (String × String)) :
    (r.extend a).extend b = r.extend (a ++ b) := by
  simp [Record.extend]

@[simp] theorem name_guarded : (guarded itemTypes r).markup.name = r.markup.name := by
  unfold guarded
  split <;> rfl

end Names

theorem isItemType_iff {r : Record} {name : String} :
    r.isItemType name = true ↔ r.itemTypeName? = some name := by
  simp [Record.isItemType]

/-- More attributes do not change which item type a record is of. -/
theorem itemTypeName?_extend {r : Record} {name : String} (named : r.itemTypeName? = some name)
    (more : List (String × String)) : (r.extend more).itemTypeName? = some name := by
  unfold Record.itemTypeName? at named ⊢
  split at named
  next itemType =>
    have found : (r.markup.attributes ++ more).lookup "Name" = some name := by
      rw [List.lookup_append, named]
      rfl
    rw [name_extend, if_pos itemType]
    exact found
  next => cases named

/-! ## Taking guards away -/

/-- The record without the guard of a right, if it is one of an item type. -/
def withoutGuard (right : ItemRight) (r : Record) : Record :=
  if r.markup.name = "ItemType" then r.without (securityAttribute right) else r

theorem mem_securityAttributes {i : ItemType} {a : String × String} :
    a ∈ securityAttributes i ↔
      ∃ right function, i.securityFunction? right = some function ∧
        a = (securityAttribute right, function) := by
  have all (right : ItemRight) : right ∈ recordedRights := by
    cases right <;> decide
  simp only [securityAttributes, List.mem_filterMap, all, true_and, Option.map_eq_some_iff]
  constructor
  · rintro ⟨right, function, found, rfl⟩
    exact ⟨right, function, found, rfl⟩
  · rintro ⟨right, function, found, rfl⟩
    exact ⟨right, function, found, rfl⟩

theorem withoutGuard_extend {r : Record} {right : ItemRight} (itemType : r.markup.name = "ItemType")
    (plain : r.hasAttribute (securityAttribute right) = false) (more : List (String × String)) :
    withoutGuard right (r.extend more) =
      r.extend (more.filter fun a => a.1 != securityAttribute right) := by
  have kept : r.markup.attributes.filter (fun a => a.1 != securityAttribute right) =
      r.markup.attributes := by
    rw [Record.hasAttribute, List.any_eq_false] at plain
    exact List.filter_eq_self.mpr fun a inside => bne_iff_ne.mpr fun same =>
      plain a inside (beq_iff_eq.mpr same)
  simp [withoutGuard, Record.without, Record.extend, itemType, kept]

/-- The record without any guard, if it is one of an item type. -/
def withoutGuards (r : Record) : Record :=
  recordedRights.foldl (fun r right => withoutGuard right r) r

/-- Guards that were added are taken away again. -/
theorem withoutGuards_guarded {r : Record} (itemTypes : List ItemType)
    (plain : ∀ right, r.hasAttribute (securityAttribute right) = false) :
    withoutGuards (guarded itemTypes r) = r := by
  by_cases itemType : r.markup.name = "ItemType"
  · have extended (more : List (String × String)) : withoutGuards (r.extend more) =
        r.extend ((((more.filter fun a => a.1 != securityAttribute .query).filter
          fun a => a.1 != securityAttribute .add).filter
          fun a => a.1 != securityAttribute .delete).filter
          fun a => a.1 != securityAttribute .update) := by
      simp only [withoutGuards, recordedRights, List.foldl_cons, List.foldl_nil,
        withoutGuard_extend itemType (plain _)]
    unfold guarded
    split
    next i _ =>
      rw [extended]
      refine (congrArg r.extend ?_).trans (extend_nil r)
      simp only [List.filter_eq_nil_iff, List.mem_filter]
      rintro a ⟨⟨⟨inside, query⟩, add⟩, delete⟩
      obtain ⟨right, function, -, rfl⟩ := mem_securityAttributes.mp inside
      cases right with
      | query => simp at query
      | add => simp at add
      | delete => simp at delete
      | update => simp
    next =>
      have same := extended []
      rw [extend_nil] at same
      exact same.trans (extend_nil r)
  · have other : guarded itemTypes r = r := by
      simp [guarded, Record.itemTypeName?, itemType]
    simp [other, withoutGuards, recordedRights, withoutGuard, itemType]

theorem name_withoutGuards (r : Record) : (withoutGuards r).markup.name = r.markup.name := by
  have one (right : ItemRight) (r : Record) :
      (withoutGuard right r).markup.name = r.markup.name := by
    unfold withoutGuard
    split <;> rfl
  simp [withoutGuards, recordedRights, one]

/-- Without guards, views and rights a document is its base. -/
theorem base_of_storeRecords {s : Schema} {base views rights : List Record} (hb : Base base)
    (replaced : Replaced views rights) :
    (((storeRecords s base views rights).map withoutGuards).filter
      fun r => r.markup.name != "View").filter (fun r => r.markup.name != "Right") = base := by
  have stripped : (base.map (guarded s.itemTypes)).map withoutGuards = base := by
    rw [List.map_map]
    exact (List.map_congr_left fun r inside =>
      withoutGuards_guarded s.itemTypes (hb.plain r inside)).trans (List.map_id _)
  have baseKept : ∀ r ∈ base, r.markup.name ≠ "View" ∧ r.markup.name ≠ "Right" := by
    intro r inside
    rcases hb.kinds r inside with same | same <;> rw [same] <;> decide
  rw [storeRecords, List.map_append, List.map_append, stripped, List.filter_filter,
    List.filter_append, List.filter_append]
  have first : base.filter (fun r => r.markup.name != "Right" && r.markup.name != "View") =
      base :=
    List.filter_eq_self.mpr fun r inside => by simp [baseKept r inside]
  have second : (views.map withoutGuards).filter
      (fun r => r.markup.name != "Right" && r.markup.name != "View") = [] := by
    refine List.filter_eq_nil_iff.mpr fun r inside => ?_
    obtain ⟨v, member, rfl⟩ := List.mem_map.mp inside
    simp [name_withoutGuards, replaced.views v member]
  have third : (rights.map withoutGuards).filter
      (fun r => r.markup.name != "Right" && r.markup.name != "View") = [] := by
    refine List.filter_eq_nil_iff.mpr fun r inside => ?_
    obtain ⟨v, member, rfl⟩ := List.mem_map.mp inside
    simp [name_withoutGuards, replaced.rights v member]
  rw [first, second, third, List.append_nil, List.append_nil]

/-! ## Putting guards back -/

/-- The records with attributes added to that of an item type. -/
def extendItemType (name : String) (more : List (String × String)) (rs : List Record) :
    List Record :=
  rs.map fun r => if r.isItemType name then r.extend more else r

/-- Only the first record of an item type gets the attribute, but there is no second one. -/
theorem insertAttribute?_eq_some {name : String} {a : String × String} {rs : List Record}
    (distinct : DistinctItemTypes rs)
    (fresh : ∀ r ∈ rs, r.isItemType name = true → r.hasAttribute a.1 = false) :
    insertAttribute? name a rs = some (extendItemType name [a] rs) := by
  induction rs with
  | nil => rfl
  | cons r rest ih =>
      obtain ⟨here, others⟩ := List.forall_mem_cons.mp fresh
      cases matched : r.isItemType name with
      | true =>
          have named := isItemType_iff.mp matched
          rw [DistinctItemTypes, List.filterMap_cons_some named, List.nodup_cons] at distinct
          have unmatched : ∀ other ∈ rest, other.isItemType name = false := by
            intro other inside
            rw [Bool.eq_false_iff]
            intro again
            exact distinct.1 (List.mem_filterMap.mpr ⟨other, inside, isItemType_iff.mp again⟩)
          have same : extendItemType name [a] rest = rest :=
            (List.map_congr_left fun other inside => by simp [unmatched other inside]).trans
              (List.map_id _)
          rw [insertAttribute?, if_pos matched, here matched, if_neg Bool.false_ne_true,
            extendItemType, List.map_cons, if_pos matched]
          exact congrArg (fun tail => some (r.extend [a] :: tail)) same.symm
      | false =>
          have tailDistinct : DistinctItemTypes rest :=
            distinct.sublist ((List.sublist_cons_self r rest).filterMap _)
          have unmatched : ¬ r.isItemType name = true := by
            rw [matched]
            exact Bool.false_ne_true
          have kept : extendItemType name [a] (r :: rest) = r :: extendItemType name [a] rest := by
            rw [extendItemType, List.map_cons, if_neg unmatched]
            rfl
          rw [insertAttribute?, if_neg unmatched, ih tailDistinct others, kept]
          rfl

theorem itemTypeName?_extendItemType (name : String) (more : List (String × String))
    (rs : List Record) :
    (extendItemType name more rs).map Record.itemTypeName? = rs.map Record.itemTypeName? := by
  rw [extendItemType, List.map_map]
  refine List.map_congr_left fun r _ => ?_
  rw [Function.comp_apply]
  split
  next matched =>
    have named := isItemType_iff.mp matched
    rw [itemTypeName?_extend named, named]
  next => rfl

theorem DistinctItemTypes.extendItemType {rs : List Record} (h : DistinctItemTypes rs)
    (name : String) (more : List (String × String)) :
    DistinctItemTypes (extendItemType name more rs) := by
  have same : (Script.extendItemType name more rs).filterMap Record.itemTypeName? =
      rs.filterMap Record.itemTypeName? := by
    have names := congrArg (List.filterMap id) (itemTypeName?_extendItemType name more rs)
    simpa [List.filterMap_map] using names
  unfold DistinctItemTypes
  rw [same]
  exact h

theorem extendItemType_extendItemType (name : String) (a b : List (String × String))
    (rs : List Record) :
    extendItemType name b (extendItemType name a rs) = extendItemType name (a ++ b) rs := by
  rw [extendItemType, extendItemType, extendItemType, List.map_map]
  refine List.map_congr_left fun r _ => ?_
  rw [Function.comp_apply]
  by_cases matched : r.isItemType name = true
  · have again : (r.extend a).isItemType name = true :=
      isItemType_iff.mpr (itemTypeName?_extend (isItemType_iff.mp matched) a)
    rw [if_pos matched, if_pos again, if_pos matched, extend_extend]
  · rw [if_neg matched, if_neg matched, if_neg matched]

section Insert

variable {functions : Finset String} {vs : Sql.Variables}

/-- The attributes of one item type are added one after the other. -/
theorem runScript_insertAttributes {name : String} {more : List (String × String)}
    {rs : List Record} (word : Over isWordChar name)
    (words : ∀ a ∈ more, Over isWordChar a.1 ∧ Over isWordChar a.2)
    (keys : (more.map Prod.fst).Nodup) (distinct : DistinctItemTypes rs)
    (fresh : ∀ r ∈ rs, r.isItemType name = true → ∀ a ∈ more, r.hasAttribute a.1 = false) :
    runScript ⟨functions, some rs, vs⟩ (more.map fun a => .insertAttribute name a.1 a.2) =
      .ok ⟨functions, some (extendItemType name more rs), vs⟩ := by
  induction more generalizing rs with
  | nil =>
      have same : extendItemType name [] rs = rs := by
        simp [extendItemType]
      rw [same]
      rfl
  | cons a rest ih =>
      obtain ⟨⟨key, value⟩, otherWords⟩ := List.forall_mem_cons.mp words
      rw [List.map_cons, List.nodup_cons] at keys
      have inserted : insertAttribute? name (a.1, a.2) rs = some (extendItemType name [a] rs) :=
        insertAttribute?_eq_some distinct fun r inside matched =>
          fresh r inside matched a List.mem_cons_self
      have stillFresh : ∀ r ∈ extendItemType name [a] rs, r.isItemType name = true →
          ∀ b ∈ rest, r.hasAttribute b.1 = false := by
        intro r inside matched b later
        obtain ⟨old, member, rfl⟩ := List.mem_map.mp inside
        by_cases oldMatched : old.isItemType name = true
        · have absent := fresh old member oldMatched b (List.mem_cons_of_mem a later)
          have other : a.1 ≠ b.1 := fun same =>
            keys.1 (same ▸ List.mem_map_of_mem later)
          rw [if_pos oldMatched, Record.hasAttribute, Record.extend]
          rw [Record.hasAttribute] at absent
          simp [absent, other]
        · rw [if_neg oldMatched] at matched
          exact absurd matched oldMatched
      rw [List.map_cons, runScript_cons (run_insertAttribute word key value inserted),
        ih otherWords keys.2 (distinct.extendItemType name [a]) stillFresh,
        extendItemType_extendItemType]
      rfl

theorem words_securityAttributes {i : ItemType} (name : IsIdentifier i.name) :
    ∀ a ∈ securityAttributes i, Over isWordChar a.1 ∧ Over isWordChar a.2 := by
  intro a inside
  obtain ⟨right, function, found, rfl⟩ := mem_securityAttributes.mp inside
  have key : Over isWordChar (securityAttribute right) := by
    cases right <;> decide
  exact ⟨key, over_securityFunction name found⟩

theorem keys_securityAttributes (i : ItemType) :
    ((securityAttributes i).map Prod.fst).Nodup :=
  (by decide : (recordedRights.map securityAttribute).Nodup).sublist
    (keys_securityAttributes_sublist i recordedRights)

theorem guarded_nil (r : Record) : guarded [] r = r := by
  unfold guarded
  cases r.itemTypeName? <;> rfl

/-- Guards of a further item type are those of the record with its name. -/
theorem guarded_cons (i : ItemType) (others : List ItemType)
    (fresh : ∀ j ∈ others, j.name ≠ i.name) (r : Record) :
    guarded others (if r.isItemType i.name then r.extend (securityAttributes i) else r) =
      guarded (i :: others) r := by
  by_cases matched : r.isItemType i.name = true
  · have named := isItemType_iff.mp matched
    have found : (others.find? fun j => j.name == i.name) = none :=
      List.find?_eq_none.mpr fun j inside same => fresh j inside (beq_iff_eq.mp same)
    have extended := itemTypeName?_extend named (securityAttributes i)
    rw [if_pos matched, guarded, extended, Option.bind_some, found, guarded, named,
      Option.bind_some, List.find?_cons_of_pos (by simp)]
  · rw [if_neg matched]
    unfold guarded
    cases named : r.itemTypeName? with
    | none => rfl
    | some name =>
        have other : ¬ (i.name == name) = true := by
          intro same
          exact matched (isItemType_iff.mpr (by rw [named, beq_iff_eq.mp same]))
        have skipped : ((i :: others).find? fun j => j.name == name) =
            others.find? fun j => j.name == name := List.find?_cons_of_neg other
        rw [Option.bind_some, Option.bind_some, skipped]

/-- Guards of one item type leave the records of all others as they are. -/
theorem fresh_extendItemType {i : ItemType} {others : List ItemType} {rs : List Record}
    (otherName : ∀ j ∈ others, j.name ≠ i.name)
    (fresh : ∀ r ∈ rs, ∀ j ∈ others, r.isItemType j.name = true →
      ∀ right, r.hasAttribute (securityAttribute right) = false) :
    ∀ r ∈ extendItemType i.name (securityAttributes i) rs, ∀ j ∈ others,
      r.isItemType j.name = true →
        ∀ right, r.hasAttribute (securityAttribute right) = false := by
  intro r inside j member matched right
  obtain ⟨old, oldInside, rfl⟩ := List.mem_map.mp inside
  by_cases oldMatched : old.isItemType i.name = true
  · rw [if_pos oldMatched] at matched
    have named := itemTypeName?_extend (isItemType_iff.mp oldMatched) (securityAttributes i)
    have same := (isItemType_iff.mp matched).symm.trans named
    exact absurd (Option.some.inj same) (otherName j member)
  · rw [if_neg oldMatched] at matched ⊢
    exact fresh old oldInside j member matched right

/-- The guards of item types are put back one item type after the other. -/
theorem runScript_guards {itemTypes : List ItemType} {rs : List Record}
    (names : ∀ i ∈ itemTypes, IsIdentifier i.name)
    (different : (itemTypes.map ItemType.name).Nodup) (distinct : DistinctItemTypes rs)
    (fresh : ∀ r ∈ rs, ∀ i ∈ itemTypes, r.isItemType i.name = true →
      ∀ right, r.hasAttribute (securityAttribute right) = false) :
    runScript ⟨functions, some rs, vs⟩
      (itemTypes.flatMap fun i =>
        (securityAttributes i).map fun a => .insertAttribute i.name a.1 a.2) =
      .ok ⟨functions, some (rs.map (guarded itemTypes)), vs⟩ := by
  induction itemTypes generalizing rs with
  | nil =>
      have same : rs.map (guarded []) = rs := by
        rw [funext guarded_nil]
        exact List.map_id' rs
      rw [same]
      rfl
  | cons i others ih =>
      obtain ⟨name, otherNames⟩ := List.forall_mem_cons.mp names
      rw [List.map_cons, List.nodup_cons] at different
      have otherName : ∀ j ∈ others, j.name ≠ i.name := fun j inside same =>
        different.1 (List.mem_map.mpr ⟨j, inside, same⟩)
      have absent : ∀ r ∈ rs, r.isItemType i.name = true →
          ∀ a ∈ securityAttributes i, r.hasAttribute a.1 = false := by
        intro r inside matched a member
        obtain ⟨right, function, -, rfl⟩ := mem_securityAttributes.mp member
        exact fresh r inside i List.mem_cons_self matched right
      have first : runScript ⟨functions, some rs, vs⟩
          ((securityAttributes i).map fun a => .insertAttribute i.name a.1 a.2) =
          .ok ⟨functions, some (extendItemType i.name (securityAttributes i) rs), vs⟩ :=
        runScript_insertAttributes (over_identifier name) (words_securityAttributes name)
          (keys_securityAttributes i) distinct absent
      have stillFresh := fresh_extendItemType otherName fun r inside j member =>
        fresh r inside j (List.mem_cons_of_mem i member)
      have composed : (extendItemType i.name (securityAttributes i) rs).map (guarded others) =
          rs.map (guarded (i :: others)) := by
        rw [extendItemType, List.map_map]
        exact List.map_congr_left fun r _ => guarded_cons i others otherName r
      rw [List.flatMap_cons, runScript_append first,
        ih otherNames different.2 (distinct.extendItemType _ _) stillFresh, composed]

/-- Records are added one after the other at the end. -/
theorem runScript_insertRecords {added rs : List Record} (simple : ∀ r ∈ added, r.Simple)
    (before : Option String) :
    ∃ after, runScript ⟨functions, some rs, [(commandVariable, before)]⟩
      (added.map .insertRecord) =
        .ok ⟨functions, some (rs ++ added), [(commandVariable, after)]⟩ := by
  induction added generalizing rs before with
  | nil =>
      refine ⟨before, ?_⟩
      rw [List.append_nil]
      rfl
  | cons r rest ih =>
      obtain ⟨first, others⟩ := List.forall_mem_cons.mp simple
      obtain ⟨between, inserted⟩ : ∃ between,
          Statement.run ⟨functions, some rs, [(commandVariable, before)]⟩ (.insertRecord r) =
            .ok ⟨functions, some (rs ++ [r]), [(commandVariable, between)]⟩ :=
        run_insertRecord first before
      obtain ⟨after, run⟩ := ih others between
      refine ⟨after, ?_⟩
      rw [List.map_cons, runScript_cons inserted, run, List.append_assoc]
      rfl

/-- Guards, views and rights are taken away. -/
theorem runScript_deleteRecorded (rs : List Record) :
    runScript ⟨functions, some rs, vs⟩ deleteRecorded =
      .ok ⟨functions, some (((rs.map withoutGuards).filter
        fun r => r.markup.name != "View").filter fun r => r.markup.name != "Right"), vs⟩ := by
  have guards : runScript ⟨functions, some rs, vs⟩
      (recordedRights.map fun right => .deleteAttribute (securityAttribute right)) =
      .ok ⟨functions, some (rs.map withoutGuards), vs⟩ := by
    rw [recordedRights, List.map_cons, runScript_cons (run_deleteAttribute .query),
      List.map_cons, runScript_cons (run_deleteAttribute .add), List.map_cons,
      runScript_cons (run_deleteAttribute .delete), List.map_cons,
      runScript_cons (run_deleteAttribute .update), List.map_map, List.map_map, List.map_map]
    rfl
  rw [deleteRecorded, runScript_append guards, runScript_cons (run_deleteRecords (.inl rfl)),
    runScript_cons (run_deleteRecords (.inr rfl))]
  rfl

end Insert

end LearningStore.Script
