import LearningStore.Proofs.Schema.Entries
import LearningStore.Proofs.Schema.Growth
import LearningStore.Proofs.Text.Trimming

/-!
# Texts that say something

A statement that is read from a schema file has a character that is not blank: grant expressions,
constraints, indexes, snippets and the implementations of views.  Merging files adds such texts and
leaves out others, but makes no new ones.  An expression that is the default of a property is only
known not to be empty.
-/

namespace LearningStore.Text

/-- A text with a character that is not blank. -/
def Solid (t : String) : Prop :=
  ∃ c ∈ t.toList, isBlank c = false

theorem solid_iff {t : String} : Solid t ↔ isBlankText t = false := by
  simp only [Solid, isBlankText, List.all_eq_false, Bool.not_eq_true]

instance (t : String) : Decidable (Solid t) :=
  decidable_of_iff (isBlankText t = false) solid_iff.symm

/-- Trimming a text leaves nothing exactly if all of it is blank. -/
theorem solid_trimmed_iff {t : String} : Solid (trimmed t) ↔ Solid t := by
  have blanks (s : List Char) : (∃ c ∈ s, isBlank c = false) ↔ trim s ≠ [] := by
    rw [ne_eq, trim_eq_nil_iff, Blanks]
    simp only [not_forall, Bool.not_eq_true, exists_prop]
  rw [Solid, Solid, trimmed, String.toList_ofList, blanks, blanks, trim_trim]

end LearningStore.Text

namespace LearningStore.Schema

open LearningStore.Text
open LearningStore.Value
open LearningStore.Xml

/-! ## Filled elements -/

/-- A property whose constraints say something, and whose default is not empty if it is an
expression. -/
structure Property.Filled (p : Property) : Prop where
  constraints : ∀ t ∈ p.constraints, Solid t
  default : ∀ t, p.default = some (.function t) → t ≠ ""

/-- An item type whose texts say something. -/
structure ItemType.Filled (i : ItemType) : Prop where
  expressions : ∀ right, ∀ t ∈ i.expressions right, Solid t
  properties : ∀ p ∈ i.properties, p.Filled
  indexes : ∀ t ∈ i.indexes, Solid t
  sqlAfter : ∀ t ∈ i.sqlAfter, Solid t

structure View.Filled (v : View) : Prop where
  implementation : Solid v.implementation
  expressions : ∀ t ∈ v.expressions, Solid t

def Right.Filled (r : Right) : Prop :=
  ∀ t ∈ r.expressions, Solid t

structure ItemTypeBody.Filled (body : ItemTypeBody) : Prop where
  expressions : ∀ x ∈ body.expressions, Solid x.2
  properties : ∀ d ∈ body.properties, d.item.Filled
  indexes : ∀ t ∈ body.indexes, Solid t
  sqlAfter : ∀ t ∈ body.sqlAfter, Solid t

/-- A file whose texts say something. -/
structure SchemaFile.Filled (f : SchemaFile) : Prop where
  itemTypes : ∀ x ∈ f.itemTypes, x.item.Filled
  views : ∀ x ∈ f.views, x.item.Filled
  rights : ∀ x ∈ f.rights, x.item.Filled
  itemTypeExtensions : ∀ x ∈ f.itemTypeExtensions, x.body.Filled
  viewExtensions : ∀ x ∈ f.viewExtensions, ∀ t ∈ x.expressions, Solid t
  rightExtensions : ∀ x ∈ f.rightExtensions, ∀ t ∈ x.expressions, Solid t
  sqlBefore : ∀ t ∈ f.sqlBefore, Solid t
  sqlAfter : ∀ t ∈ f.sqlAfter, Solid t

theorem SchemaFile.Filled.empty (fileName : String) : (SchemaFile.empty fileName).Filled := by
  constructor <;> exact List.forall_mem_nil _

theorem ItemTypeBody.Filled.expressionsOf {body : ItemTypeBody} (h : body.Filled)
    (right : ItemRight) : ∀ t ∈ body.expressionsOf right, Solid t := by
  intro t member
  obtain ⟨x, listed, rfl⟩ := List.mem_map.mp member
  exact h.expressions x (List.mem_of_mem_filter listed)

/-! ## Reading -/

namespace Source

variable {s : Source} {e : Element} {rule : ElementRule}

theorem solid_statement {t : String} (found : (s.statement e rule).value = some t) : Solid t := by
  simp only [statement, Checked.value_bind] at found
  split at found
  next => cases found
  next written =>
    cases found
    exact solid_iff.mpr (Bool.eq_false_iff.mpr written)

theorem solid_statements : ∀ t ∈ (s.statements e rule).value, Solid t := by
  intro t member
  rw [statements, Checked.value_eachSome] at member
  obtain ⟨child, -, found⟩ := List.mem_filterMap.mp member
  exact solid_statement found

theorem solid_expressions {grant : String} : ∀ t ∈ (s.expressions e grant).value, Solid t := by
  intro t member
  simp only [expressions, Checked.value_bind, Checked.value_each, Checked.value_pure] at member
  obtain ⟨list, listed, inside⟩ := List.mem_flatten.mp member
  obtain ⟨g, -, rfl⟩ := List.mem_map.mp listed
  exact solid_statements t inside

theorem solid_constraints : ∀ t ∈ (s.constraints e).value, Solid t := by
  unfold constraints
  split
  next => exact List.forall_mem_nil _
  next => exact solid_statements

theorem solid_indexes : ∀ t ∈ (s.indexes e).value, Solid t := by
  unfold indexes
  split
  next => exact List.forall_mem_nil _
  next => exact solid_statements

/-- A view without an implementation, or with a blank one, is reported. -/
theorem solid_implementation {name : String} (clean : (s.implementation name e).Clean) :
    Solid (s.implementation name e).value := by
  unfold implementation at clean ⊢
  split at clean
  next i found =>
    rw [Checked.clean_bind] at clean
    have read := value_statement clean.1
    simp only [Checked.value_bind, Checked.value_pure, read, Option.getD_some]
    exact solid_statement read
  next missing => simp at clean

theorem ne_empty_defaultValue {subject : Subject} {type : ValueType} {nullable : Bool}
    {t : String} (found : (s.defaultValue e subject type nullable).value = some (.function t)) :
    t ≠ "" := by
  simp only [defaultValue, Checked.value_bind] at found
  split at found
  next => cases found
  next =>
    split at found
    next => cases found
    next written =>
      split at found
      next =>
        cases found
        exact fun empty => written (String.isEmpty_iff.mpr empty)
      next => split at found <;> cases found

theorem filled_property {owner : String} {d : Declared Property}
    (found : (s.property owner e).value = some d) : d.item.Filled := by
  simp only [property, Checked.value_bind] at found
  cases typed : (s.valueType e).value with
  | none =>
      rw [typed] at found
      cases found
  | some type =>
      rw [typed] at found
      cases found
      refine ⟨solid_constraints, fun t isFunction => ?_⟩
      unfold default? at isFunction
      split at isFunction
      next => exact ne_empty_defaultValue isFunction
      next => cases isFunction

theorem filled_propertyList {owner : String} {extending : Bool}
    {before : List (Declared Property) × List MemberExtension} {es : List Element}
    (old : ∀ d ∈ before.1, d.item.Filled) :
    ∀ d ∈ (s.propertyList owner extending before es).value.1, d.item.Filled := by
  induction es generalizing before with
  | nil => exact old
  | cons e rest ih =>
      unfold propertyList
      split
      next =>
        simp only [Checked.value_bind]
        cases read : (s.property owner e).value with
        | none => exact ih old
        | some d =>
            dsimp only
            split
            next => exact ih old
            next => exact ih (forall_mem_concat old (filled_property read))
      next =>
        split
        next => exact ih old
        next => exact ih old

theorem filled_properties {owner : String} {extending : Bool} :
    ∀ d ∈ (s.properties owner extending e).value.1, d.item.Filled := by
  unfold properties
  split
  next => exact List.forall_mem_nil _
  next => exact filled_propertyList (List.forall_mem_nil _)

theorem filled_itemTypeBody {name : String} {extending : Bool} :
    (s.itemTypeBody name extending e).value.Filled := by
  refine ⟨fun x member => ?_, filled_properties, solid_indexes, solid_statements⟩
  simp only [itemTypeBody, Checked.value_bind, Checked.value_each, Checked.value_pure] at member
  obtain ⟨list, listed, inside⟩ := List.mem_flatten.mp member
  obtain ⟨g, -, rfl⟩ := List.mem_map.mp listed
  obtain ⟨t, granted, rfl⟩ := List.mem_map.mp inside
  exact solid_expressions t granted

theorem filled_itemType : (s.itemType e).value.item.Filled := by
  have body : (s.itemTypeBody (s.name e).value false e).value.Filled := filled_itemTypeBody
  refine ⟨fun right => ?_, fun p member => ?_, body.indexes, body.sqlAfter⟩
  · cases right <;> exact body.expressionsOf _
  · obtain ⟨d, listed, rfl⟩ := List.mem_map.mp member
    exact body.properties d listed

theorem filled_view (clean : (s.view e).Clean) : (s.view e).value.item.Filled := by
  simp only [view, Checked.clean_bind] at clean
  obtain ⟨-, -, -, -, implemented, -⟩ := clean
  exact ⟨solid_implementation implemented, solid_expressions⟩

/-- Each child of the root adds at most one element to those read before it, and the texts of that
one say something. -/
theorem filled_declaration {file : SchemaFile} (clean : (s.declaration file e).Clean)
    (filled : file.Filled) : (s.declaration file e).value.Filled := by
  unfold declaration at clean ⊢
  split at clean <;> simp only [Checked.clean_bind, Checked.clean_pure, and_true] at clean
  case h_2 =>
    exact { filled with itemTypes := forall_mem_concat filled.itemTypes filled_itemType }
  case h_3 => exact { filled with views := forall_mem_concat filled.views (filled_view clean) }
  case h_4 =>
    have added := forall_mem_concat (a := (s.right e).value) filled.rights solid_expressions
    exact { filled with rights := added }
  case h_5 =>
    have added := forall_mem_concat (a := (s.itemTypeExtension e).value)
      filled.itemTypeExtensions filled_itemTypeBody
    exact { filled with itemTypeExtensions := added }
  case h_6 =>
    have added := forall_mem_concat (a := (s.viewExtension e).value) filled.viewExtensions
      solid_expressions
    exact { filled with viewExtensions := added }
  case h_7 =>
    have added := forall_mem_concat (a := (s.rightExtension e).value) filled.rightExtensions
      solid_expressions
    exact { filled with rightExtensions := added }
  case h_8 =>
    have added : ∀ t ∈ (s.statement e .sqlBefore).value.toList, Solid t :=
      fun t member => solid_statement (Option.mem_toList.mp member)
    exact { filled with sqlBefore := List.forall_mem_append.mpr ⟨filled.sqlBefore, added⟩ }
  case h_9 =>
    have added : ∀ t ∈ (s.statement e .sqlAfter).value.toList, Solid t :=
      fun t member => solid_statement (Option.mem_toList.mp member)
    exact { filled with sqlAfter := List.forall_mem_append.mpr ⟨filled.sqlAfter, added⟩ }
  all_goals exact { filled with }

theorem filled_declarations {file : SchemaFile} {es : List Element}
    (clean : (s.declarations file es).Clean) (filled : file.Filled) :
    (s.declarations file es).value.Filled := by
  induction es generalizing file with
  | nil => exact filled
  | cons e rest ih =>
      unfold declarations at clean ⊢
      rw [Checked.clean_bind] at clean
      exact ih clean.2 (filled_declaration clean.1 filled)

theorem filled_file (clean : s.file.Clean) : s.file.value.Filled := by
  dsimp only [file] at clean ⊢
  split
  next rooted =>
    rw [if_pos rooted, Checked.clean_bind] at clean
    exact filled_declarations clean.2 (.empty _)
  next => exact .empty _

end Source

theorem SchemaFile.filled_of_read {text fileName : String} {inBase : Bool} {file : SchemaFile}
    (accepted : SchemaFile.read text fileName inBase = .ok file) : file.Filled := by
  obtain ⟨document, -, clean, rfl⟩ := SchemaFile.read_eq_ok_iff.mp accepted
  exact Source.filled_file clean

/-! ## Merging -/

namespace ItemType

variable {i : ItemType}

theorem Filled.grant (h : i.Filled) (right : ItemRight) {more : List String}
    (added : ∀ t ∈ more, Solid t) : (i.grant right more).Filled := by
  have expressions (other : ItemRight) : ∀ t ∈ (i.grant right more).expressions other, Solid t := by
    rw [expressions_grant]
    refine List.forall_mem_append.mpr ⟨h.expressions other, ?_⟩
    split
    next => exact added
    next => exact List.forall_mem_nil _
  cases right <;> exact ⟨expressions, h.properties, h.indexes, h.sqlAfter⟩

theorem Filled.grantAll (h : i.Filled) {expressions : List (ItemRight × String)}
    (added : ∀ x ∈ expressions, Solid x.2) : (i.grantAll expressions).Filled := by
  induction expressions generalizing i with
  | nil => exact h
  | cons x rest ih =>
      obtain ⟨first, others⟩ := List.forall_mem_cons.mp added
      rw [grantAll_cons]
      exact ih (h.grant x.1 (List.forall_mem_singleton.mpr first)) others

theorem Filled.addProperty (h : i.Filled) {d : Declared Property} (added : d.item.Filled) :
    (i.addProperty d).value.Filled := by
  unfold ItemType.addProperty
  split
  next => exact h
  next => exact ⟨h.expressions, forall_mem_concat h.properties added, h.indexes, h.sqlAfter⟩

/-- Documentation is no text of a script. -/
theorem Filled.extendProperty (h : i.Filled) (m : MemberExtension) :
    (i.extendProperty m).value.Filled := by
  unfold ItemType.extendProperty
  split
  next =>
    refine ⟨h.expressions, fun p member => ?_, h.indexes, h.sqlAfter⟩
    rcases mem_updateFirst member with old | ⟨q, inside, -, rfl⟩
    · exact h.properties p old
    · exact ⟨(h.properties q inside).constraints, (h.properties q inside).default⟩
  next => exact h

theorem Filled.extend (h : i.Filled) {x : ItemTypeExtension} (added : x.body.Filled) :
    (i.extend x).value.Filled := by
  have documented : { i with
      documentation := i.documentation.append x.body.documentation }.Filled :=
    ⟨h.expressions, h.properties, h.indexes, h.sqlAfter⟩
  have opened : (i.opened x).Filled := documented.grantAll added.expressions
  have grown := Checked.through_preserves (P := Filled) (f := ItemType.addProperty)
    (fun _ d member filled => filled.addProperty (added.properties d member)) opened
  have merged := Checked.through_preserves (P := Filled) (f := ItemType.extendProperty)
    (l := x.body.propertyExtensions) (fun _ m _ filled => filled.extendProperty m) grown
  refine ⟨merged.expressions, merged.properties, ?_, ?_⟩
  · refine List.forall_mem_append.mpr ⟨?_, added.indexes⟩
    split
    next => exact List.forall_mem_nil _
    next => exact merged.indexes
  · exact List.forall_mem_append.mpr ⟨merged.sqlAfter, added.sqlAfter⟩

end ItemType

theorem View.Filled.extend {v : View} (h : v.Filled) {x : ViewExtension}
    (added : ∀ t ∈ x.expressions, Solid t) : (v.extend x).Filled :=
  ⟨h.implementation, List.forall_mem_append.mpr ⟨h.expressions, added⟩⟩

theorem Right.Filled.extend {r : Right} (h : r.Filled) {x : RightExtension}
    (added : ∀ t ∈ x.expressions, Solid t) : (r.extend x).value.Filled := by
  have opened : (r.opened x).Filled := List.forall_mem_append.mpr ⟨h, added⟩
  have grown := Checked.through_preserves (P := Filled) (f := Right.addParameter)
    (l := x.parameters) (fun q d _ filled => by
      unfold Right.addParameter
      split <;> exact filled) opened
  exact Checked.through_preserves (P := Filled) (f := Right.extendParameter)
    (l := x.parameterExtensions) (fun q m _ filled => by
      unfold Right.extendParameter
      split <;> exact filled) grown

namespace Drafts

/-- Drafts whose texts say something. -/
structure Filled (d : Drafts) : Prop where
  itemTypes : ∀ i ∈ d.itemTypes, i.Filled
  views : ∀ v ∈ d.views, v.Filled
  rights : ∀ r ∈ d.rights, r.Filled
  sqlBefore : ∀ t ∈ d.sqlBefore, Solid t
  sqlAfter : ∀ t ∈ d.sqlAfter, Solid t

variable {d : Drafts}

/-- The registry of names has no part in it. -/
theorem Filled.register (h : d.Filled) {name : String} {location : Location}
    {add : Drafts → Drafts} (filled : ∀ e : Drafts, e.Filled → (add e).Filled) :
    (d.register name location add).value.Filled := by
  unfold Drafts.register
  split
  next => exact h
  next => exact filled _ { h with }

theorem Filled.extendItemType (h : d.Filled) {x : ItemTypeExtension} (added : x.body.Filled) :
    (d.extendItemType x).value.Filled := by
  unfold Drafts.extendItemType
  split
  next => exact h
  next i found =>
    refine { h with itemTypes := fun j member => ?_ }
    rcases mem_updateFirst member with old | ⟨-, -, -, rfl⟩
    · exact h.itemTypes j old
    · exact (h.itemTypes i (List.mem_of_find?_eq_some found)).extend added

theorem Filled.extendView (h : d.Filled) {x : ViewExtension}
    (added : ∀ t ∈ x.expressions, Solid t) : (d.extendView x).value.Filled := by
  unfold Drafts.extendView
  split
  next =>
    refine { h with views := fun v member => ?_ }
    rcases mem_updateFirst member with old | ⟨w, inside, -, rfl⟩
    · exact h.views v old
    · exact (h.views w inside).extend added
  next => exact h

theorem Filled.extendRight (h : d.Filled) {x : RightExtension}
    (added : ∀ t ∈ x.expressions, Solid t) : (d.extendRight x).value.Filled := by
  unfold Drafts.extendRight
  split
  next => exact h
  next r found =>
    refine { h with rights := fun q member => ?_ }
    rcases mem_updateFirst member with old | ⟨-, -, -, rfl⟩
    · exact h.rights q old
    · exact (h.rights r (List.mem_of_find?_eq_some found)).extend added

theorem Filled.apply (h : d.Filled) {file : SchemaFile} (filled : file.Filled) :
    (d.apply file).value.Filled := by
  simp only [Drafts.apply, Checked.value_bind, Checked.value_pure]
  have enums := Checked.through_preserves (P := Filled) (f := Drafts.addEnum) (l := file.enums)
    (fun _ _ _ kept => kept.register fun _ same => { same with }) h
  have itemTypes := Checked.through_preserves (P := Filled) (f := Drafts.addItemType)
    (fun _ x member kept => kept.register fun _ same =>
      { same with itemTypes := forall_mem_concat same.itemTypes (filled.itemTypes x member) }) enums
  have views := Checked.through_preserves (P := Filled) (f := Drafts.addView)
    (fun _ x member kept => kept.register fun _ same =>
      { same with views := forall_mem_concat same.views (filled.views x member) }) itemTypes
  have rights := Checked.through_preserves (P := Filled) (f := Drafts.addRight)
    (fun _ x member kept => kept.register fun _ same =>
      { same with rights := forall_mem_concat same.rights (filled.rights x member) }) views
  have itemTypesExtended := Checked.through_preserves (P := Filled) (f := Drafts.extendItemType)
    (fun _ x member kept => kept.extendItemType (filled.itemTypeExtensions x member)) rights
  have viewsExtended := Checked.through_preserves (P := Filled) (f := Drafts.extendView)
    (fun _ x member kept => kept.extendView (filled.viewExtensions x member)) itemTypesExtended
  have rightsExtended := Checked.through_preserves (P := Filled) (f := Drafts.extendRight)
    (fun _ x member kept => kept.extendRight (filled.rightExtensions x member)) viewsExtended
  exact { rightsExtended with
    sqlBefore := List.forall_mem_append.mpr ⟨rightsExtended.sqlBefore, filled.sqlBefore⟩
    sqlAfter := List.forall_mem_append.mpr ⟨rightsExtended.sqlAfter, filled.sqlAfter⟩ }

theorem filled_applyTexts (h : d.Filled) (texts : List SchemaText) :
    (d.applyTexts texts).Filled := by
  induction texts generalizing d with
  | nil => exact h
  | cons t rest ih =>
      refine ih ?_
      unfold Drafts.applyText
      split
      next => exact h
      next accepted => exact h.apply (SchemaFile.filled_of_read accepted)

end Drafts

/-- A schema whose texts say something. -/
structure Filled (s : Schema) : Prop where
  itemTypes : ∀ i ∈ s.itemTypes, i.Filled
  views : ∀ v ∈ s.views, v.Filled
  rights : ∀ r ∈ s.rights, r.Filled
  sqlBefore : ∀ t ∈ s.sqlBefore, Solid t
  sqlAfter : ∀ t ∈ s.sqlAfter, Solid t

theorem Finished.filled {s : Schema} (h : s.Finished) : s.Filled := by
  obtain ⟨texts, finished⟩ := h
  obtain ⟨-, rfl⟩ := Drafts.finish_eq_ok_iff.mp finished
  have empty : ({} : Drafts).Filled := by constructor <;> exact List.forall_mem_nil _
  obtain ⟨itemTypes, views, rights, before, after⟩ := Drafts.filled_applyTexts empty texts
  exact ⟨itemTypes, views, rights, before, after⟩

end LearningStore.Schema
