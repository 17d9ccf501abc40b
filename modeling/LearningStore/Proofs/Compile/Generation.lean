import LearningStore.Compile.Artifact
import LearningStore.Proofs.Schema.Lookup

/-!
# Generators do not fail

Generators look up what members refer to, and every lookup may fail.  In a valid schema
a member whose type asks for a reference has one and it leads somewhere, and no generator
looks for anything else.
-/

namespace LearningStore

open LearningStore.Schema
open LearningStore.Value

variable {s : Schema}

/-! ## Scripts -/

namespace Script

theorem succeeds_referenceAttribute {m : Member} (h : m.Valid s) :
    Succeeds (referenceAttribute s m) := by
  unfold referenceAttribute
  split
  next type => exact (h.referencedItemType type).map _
  next type => exact (h.referencedEnum type).map _
  next => exact .ok []

theorem succeeds_propertyMarkup {p : Property} (h : p.Valid s) :
    Succeeds (propertyMarkup s p) :=
  (succeeds_referenceAttribute h.member).map _

theorem succeeds_nullableMarkup (element : String) {m : Member} (h : m.Valid s) :
    Succeeds (nullableMarkup s element m) :=
  (succeeds_referenceAttribute h).map _

theorem succeeds_parameterMarkups {parameters : List Parameter}
    (h : ∀ p ∈ parameters, p.toMember.Valid s) : Succeeds (parameterMarkups s parameters) :=
  .mapM fun p inside => succeeds_nullableMarkup "Parameter" (h p inside)

theorem succeeds_itemTypeRecord {i : ItemType} (h : ∀ p ∈ i.properties, p.Valid s) :
    Succeeds (itemTypeRecord s i) :=
  (Succeeds.mapM fun p inside => succeeds_propertyMarkup (h p inside)).map _

theorem succeeds_viewRecord {v : View} (columns : ∀ c ∈ v.columns, c.toMember.Valid s)
    (parameters : ∀ p ∈ v.parameters, p.toMember.Valid s) : Succeeds (viewRecord s v) := by
  refine (Succeeds.mapM fun c inside => ?_).bind fun _ => ?_
  · exact succeeds_nullableMarkup "Column" (columns c inside)
  · exact (succeeds_parameterMarkups parameters).bind fun _ => .ok _

theorem succeeds_rightRecord {r : Right} (h : ∀ p ∈ r.parameters, p.toMember.Valid s) :
    Succeeds (rightRecord s r) :=
  (succeeds_parameterMarkups h).map _

theorem succeeds_viewRecords (h : s.Valid) : Succeeds (s.views.mapM (viewRecord s)) :=
  .mapM fun v member => succeeds_viewRecord (h.columns v member) (h.view_parameters v member)

theorem succeeds_rightRecords (h : s.Valid) : Succeeds (s.rights.mapM (rightRecord s)) :=
  .mapM fun r member => succeeds_rightRecord (h.right_parameters r member)

theorem succeeds_records (h : s.Valid) : Succeeds (records s) := by
  refine (Succeeds.mapM fun i member => ?_).bind fun _ => ?_
  · exact succeeds_itemTypeRecord (h.properties i member)
  · refine (succeeds_viewRecords h).bind fun _ => ?_
    exact (succeeds_rightRecords h).bind fun _ => .ok _

theorem succeeds_foreignKey (i : ItemType) {p : Property} (h : p.Valid s) :
    Succeeds (ForeignKey.ofProperty s i p) := by
  unfold ForeignKey.ofProperty
  split
  next type => exact (h.member.referencedItemType type).map _
  next type => exact (h.member.referencedEnum type).map _
  next => exact .ok []

theorem succeeds_constraintsAndIndexes {i : ItemType} (h : ∀ p ∈ i.properties, p.Valid s) :
    Succeeds (constraintsAndIndexes s i) := by
  have keys : Succeeds (foreignKeys s i) :=
    (Succeeds.mapM fun p inside => succeeds_foreignKey i (h p inside)).map _
  exact keys.map _

/-- The script that creates a store is made for every valid schema. -/
theorem succeeds_init (h : s.Valid) : Succeeds (init s) := by
  refine (succeeds_records h).bind fun _ =>
    (Succeeds.mapM fun i member => ?_).bind fun _ => .ok _
  exact succeeds_constraintsAndIndexes (h.properties i member)

/-- The script that upgrades a store is made for every valid schema. -/
theorem succeeds_upgrade (h : s.Valid) : Succeeds (upgrade s) := by
  have document : Succeeds (replaceDocument s) :=
    (succeeds_viewRecords h).bind fun _ => (succeeds_rightRecords h).bind fun _ => .ok _
  exact document.bind fun _ => .ok _

end Script

/-! ## Helper files -/

namespace Helper

theorem succeeds_typeDescription (places : EnumPlaces) {m : Member} (maxLength : Option Int)
    (h : m.Valid s) : Succeeds (typeDescription s places m maxLength) := by
  unfold typeDescription
  split
  next type => exact (h.referencedEnum type).map _
  next type => exact (h.referencedItemType type).map _
  next => exact .ok _

/-- An enum value as a default belongs to a property that refers to an enum. -/
theorem succeeds_defaultRemark (places : EnumPlaces) {p : Property} (h : p.Valid s) :
    Succeeds (defaultRemark s places p) := by
  unfold defaultRemark
  split
  next default declared =>
    refine Succeeds.map ?_ _
    unfold defaultDescription
    split
    next value => exact (h.member.referencedEnum (h.literal _ declared).1.symm).map _
    next => exact .ok _
  next => exact .ok _

theorem succeeds_propertyComment (places : EnumPlaces) {p : Property} (h : p.Valid s) :
    Succeeds (propertyComment s places p) := by
  refine (succeeds_typeDescription places p.maxLength h.member).bind fun _ => ?_
  exact (succeeds_defaultRemark places h).bind fun _ => .ok _

namespace Setting

variable {t : Setting}

theorem succeeds_itemTypeClass {i : ItemType} (h : ∀ p ∈ i.properties, p.Valid t.schema) :
    Succeeds (t.itemTypeClass i) := by
  refine Succeeds.map (.mapM fun p inside => ?_) _
  exact (succeeds_propertyComment t.enums (h p inside)).map _

theorem succeeds_parameterConstants (entity : String) {parameters : List Parameter}
    (h : ∀ p ∈ parameters, p.toMember.Valid t.schema) :
    Succeeds (parameters.mapM (t.parameterConstant entity)) := by
  refine .mapM fun p inside => Succeeds.map ?_ _
  exact (succeeds_typeDescription t.enums none (h p inside)).map _

theorem succeeds_viewClass {v : View} (columns : ∀ c ∈ v.columns, c.toMember.Valid t.schema)
    (parameters : ∀ p ∈ v.parameters, p.toMember.Valid t.schema) :
    Succeeds (t.viewClass v) := by
  refine (Succeeds.mapM fun c inside => Succeeds.map ?_ _).bind fun _ => ?_
  · exact (succeeds_typeDescription t.enums none (columns c inside)).map _
  · exact (succeeds_parameterConstants v.name parameters).bind fun _ => .ok _

theorem succeeds_rightClass {r : Right} (h : ∀ p ∈ r.parameters, p.toMember.Valid t.schema) :
    Succeeds (t.rightClass r) :=
  (succeeds_parameterConstants r.name h).map _

/-- The classes of a helper file are made for every valid schema, wherever its names are
put. -/
theorem succeeds_classes (h : t.schema.Valid) : Succeeds t.classes := by
  refine (Succeeds.mapM fun i member => ?_).bind fun _ =>
    (Succeeds.mapM fun v member => ?_).bind fun _ =>
      (Succeeds.mapM fun r member => ?_).bind fun _ => .ok _
  · exact succeeds_itemTypeClass (h.properties i member)
  · exact succeeds_viewClass (h.columns v member) (h.view_parameters v member)
  · exact succeeds_rightClass (h.right_parameters r member)

end Setting

theorem succeeds_storageHelper (names : HelperNamespaces) (h : s.Valid) :
    Succeeds (storageHelper s names) :=
  (Setting.succeeds_classes (t := Setting.ofBase s names) h).map _

theorem succeeds_derivedHelper (names : HelperNamespaces)
    (enumNamespace schemaNamespace : String) (h : s.Valid) :
    Succeeds (derivedHelper s names enumNamespace schemaNamespace) :=
  (Setting.succeeds_classes (t := Setting.ofDerived s names enumNamespace) h).map _

/-- Both helpers of a finished schema are made. -/
theorem exists_helpers (h : s.Finished) (names : HelperNamespaces)
    (enumNamespace schemaNamespace : String) : ∃ storage derived,
      storageHelper s names = .ok storage ∧
        derivedHelper s names enumNamespace schemaNamespace = .ok derived := by
  obtain ⟨d, sound, complete, rfl⟩ := h.drafts
  have valid := sound.valid complete
  obtain ⟨storage, made⟩ := succeeds_storageHelper names valid
  obtain ⟨derived, madeDerived⟩ :=
    succeeds_derivedHelper names enumNamespace schemaNamespace valid
  exact ⟨storage, derived, made, madeDerived⟩

end Helper

/-! ## All generators -/

namespace Compile

/-- Every artifact of a valid schema has a text. -/
theorem Artifact.succeeds_text (artifact : Artifact) (h : s.Valid) :
    Succeeds (artifact.text s) := by
  cases artifact with
  | baseInit => exact (Script.succeeds_init h).map _
  | componentsHelper => exact .ok _
  | storageHelper => exact (Helper.succeeds_storageHelper {} h).map _
  | init => exact (Script.succeeds_init h).map _
  | upgrade => exact (Script.succeeds_upgrade h).map _
  | helper enumNamespace schemaNamespace =>
      exact (Helper.succeeds_derivedHelper {} enumNamespace schemaNamespace h).map _

/-- No generator meets a reference that leads nowhere in a finished schema, whatever texts
the schema comes of and whatever namespaces are chosen.  The components helper looks
nothing up, so it is among the artifacts only. -/
theorem succeeds_of_finished (h : s.Finished) :
    Succeeds (Script.init s) ∧ Succeeds (Script.upgrade s) ∧ Succeeds (Script.records s) ∧
      (∀ names, Succeeds (Helper.storageHelper s names)) ∧
      (∀ names enumNamespace schemaNamespace,
        Succeeds (Helper.derivedHelper s names enumNamespace schemaNamespace)) ∧
      ∀ artifact : Artifact, Succeeds (artifact.text s) := by
  obtain ⟨d, sound, complete, rfl⟩ := h.drafts
  have valid := sound.valid complete
  exact ⟨Script.succeeds_init valid, Script.succeeds_upgrade valid,
    Script.succeeds_records valid, fun names => Helper.succeeds_storageHelper names valid,
    fun names enumNamespace schemaNamespace =>
      Helper.succeeds_derivedHelper names enumNamespace schemaNamespace valid,
    fun artifact => artifact.succeeds_text valid⟩

theorem succeeds_sample : Sample.schema.Finished ∧ Succeeds (Script.init Sample.schema) ∧
    Succeeds (Script.upgrade Sample.schema) ∧ Succeeds (Script.records Sample.schema) ∧
      (∀ names, Succeeds (Helper.storageHelper Sample.schema names)) ∧
      (∀ names enumNamespace schemaNamespace,
        Succeeds (Helper.derivedHelper Sample.schema names enumNamespace schemaNamespace)) ∧
      ∀ artifact : Artifact, Succeeds (artifact.text Sample.schema) :=
  ⟨Sample.schema_finished, succeeds_of_finished Sample.schema_finished⟩

end Compile

end LearningStore
