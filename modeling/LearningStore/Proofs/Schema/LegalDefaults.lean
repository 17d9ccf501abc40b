import LearningStore.Proofs.Schema.Validity
import LearningStore.Proofs.Value.Figures
import LearningStore.Proofs.Xml.LegalText

/-!
# Characters of defaults

A default that is a text or an expression is taken from the text of an element, so it is made of
characters that a document may hold.  Merging files changes no default.
-/

namespace LearningStore.Schema

open LearningStore.Value
open LearningStore.Xml

/-- A property whose default, if it is a text or an expression, is legal. -/
def Property.Legal (p : Property) : Prop :=
  ∀ t ∈ p.default.bind DefaultValue.freeText?, LegalText t.toList

theorem legal_first {e child : Element} {name : String} (legal : e.Legal)
    (found : e.first? name = some child) : child.Legal :=
  legal.of_elements (List.mem_of_find?_eq_some found)

/-! ## Reading -/

namespace Source

variable {s : Source} {e : Element}

/-- A literal with a text of its own has the text that it was read from. -/
theorem eq_of_freeText {type : ValueType} {text t : String} {l : Literal}
    (accepted : Literal.read type text = .ok l)
    (free : (DefaultValue.literal l).freeText? = some t) : t = text := by
  have kind := Literal.valueType_of_read accepted
  cases l with
  | string value =>
      cases kind
      cases accepted
      exact (Option.some.inj free).symm
  | xml value =>
      cases kind
      cases accepted
      exact (Option.some.inj free).symm
  | _ => cases free

theorem legal_defaultValue (legal : e.Legal) {subject : Subject} {type : ValueType}
    {nullable : Bool} {default : DefaultValue} {t : String}
    (found : (s.defaultValue e subject type nullable).value = some default)
    (free : default.freeText? = some t) : LegalText t.toList := by
  simp only [defaultValue, Checked.value_bind] at found
  split at found
  next =>
    cases found
    cases free
  next =>
    split at found
    next => cases found
    next =>
      split at found
      next =>
        cases found
        cases free
        exact legal.text
      next =>
        split at found
        next accepted =>
          cases found
          rw [eq_of_freeText accepted free]
          exact legal.text
        next => cases found

theorem legal_default (legal : e.Legal) {subject : Subject} {type : ValueType}
    {nullable : Bool} :
    ∀ t ∈ (s.default? e subject type nullable).value.bind DefaultValue.freeText?,
      LegalText t.toList := by
  intro t member
  obtain ⟨default, found, free⟩ := Option.bind_eq_some_iff.mp member
  unfold default? at found
  split at found
  next child present => exact legal_defaultValue (legal_first legal present) found free
  next => cases found

theorem legal_property (legal : e.Legal) {owner : String} {d : Declared Property}
    (found : (s.property owner e).value = some d) : d.item.Legal := by
  simp only [property, Checked.value_bind] at found
  cases typed : (s.valueType e).value with
  | none =>
      rw [typed] at found
      cases found
  | some type =>
      rw [typed] at found
      cases found
      exact legal_default legal

theorem legal_propertyList {owner : String} {extending : Bool}
    {before : List (Declared Property) × List MemberExtension} {es : List Element}
    (legal : ∀ e ∈ es, e.Legal) (old : ∀ d ∈ before.1, d.item.Legal) :
    ∀ d ∈ (s.propertyList owner extending before es).value.1, d.item.Legal := by
  induction es generalizing before with
  | nil => exact old
  | cons e rest ih =>
      obtain ⟨here, later⟩ := List.forall_mem_cons.mp legal
      unfold propertyList
      split
      next =>
        simp only [Checked.value_bind]
        cases read : (s.property owner e).value with
        | none => exact ih later old
        | some d =>
            dsimp only
            split
            next => exact ih later old
            next => exact ih later (forall_mem_concat old (legal_property here read))
      next =>
        split
        next => exact ih later old
        next => exact ih later old

theorem legal_properties (legal : e.Legal) (owner : String) (extending : Bool) :
    ∀ d ∈ (s.properties owner extending e).value.1, d.item.Legal := by
  unfold properties
  split
  next => exact List.forall_mem_nil _
  next list present =>
    have below : ∀ child ∈ list.elements, child.Legal :=
      fun _ member => (legal_first legal present).of_elements member
    exact legal_propertyList below (List.forall_mem_nil _)

theorem legal_itemType (legal : e.Legal) : ∀ p ∈ (s.itemType e).value.item.properties, p.Legal := by
  intro p member
  obtain ⟨d, listed, rfl⟩ := List.mem_map.mp member
  exact legal_properties legal _ _ d listed

end Source

/-- A file in which all properties are legal. -/
structure SchemaFile.Legal (f : SchemaFile) : Prop where
  itemTypes : ∀ x ∈ f.itemTypes, ∀ p ∈ x.item.properties, p.Legal
  itemTypeExtensions : ∀ x ∈ f.itemTypeExtensions, ∀ p ∈ x.body.properties, p.item.Legal

namespace Source

variable {s : Source} {e : Element}

theorem legal_declaration (legal : e.Legal) {file : SchemaFile} (old : file.Legal) :
    (s.declaration file e).value.Legal := by
  unfold declaration
  split
  case h_2 =>
    have added := forall_mem_concat (a := (s.itemType e).value) old.itemTypes
      (legal_itemType legal)
    exact { old with itemTypes := added }
  case h_5 =>
    have added := forall_mem_concat (a := (s.itemTypeExtension e).value) old.itemTypeExtensions
      (legal_properties legal _ _)
    exact { old with itemTypeExtensions := added }
  all_goals exact { old with }

theorem legal_declarations {file : SchemaFile} {es : List Element} (legal : ∀ e ∈ es, e.Legal)
    (old : file.Legal) : (s.declarations file es).value.Legal := by
  induction es generalizing file with
  | nil => exact old
  | cons e rest ih =>
      obtain ⟨here, later⟩ := List.forall_mem_cons.mp legal
      exact ih later (legal_declaration here old)

theorem legal_file (legal : s.document.root.Legal) : s.file.value.Legal := by
  have empty : (SchemaFile.empty s.fileName).Legal := by
    constructor <;> exact List.forall_mem_nil _
  unfold file
  dsimp only
  split
  next => exact legal_declarations (fun _ member => legal.of_elements member) empty
  next => exact empty

end Source

theorem SchemaFile.legal_of_read {text fileName : String} {inBase : Bool} {file : SchemaFile}
    (accepted : SchemaFile.read text fileName inBase = .ok file) : file.Legal := by
  obtain ⟨document, parsed, -, rfl⟩ := SchemaFile.read_eq_ok_iff.mp accepted
  exact Source.legal_file (legal_of_parse parsed)

/-! ## Merging -/

namespace ItemType

/-- An item type in which all properties are legal. -/
def Legal (i : ItemType) : Prop :=
  ∀ p ∈ i.properties, p.Legal

theorem Legal.addProperty {i : ItemType} (h : i.Legal) {d : Declared Property}
    (added : d.item.Legal) : (i.addProperty d).value.Legal := by
  unfold ItemType.addProperty
  split
  next => exact h
  next => exact forall_mem_concat h added

/-- Documentation has no part in a default. -/
theorem Legal.extendProperty {i : ItemType} (h : i.Legal) (m : MemberExtension) :
    (i.extendProperty m).value.Legal := by
  unfold ItemType.extendProperty
  split
  next =>
    intro p member
    rcases mem_updateFirst member with old | ⟨q, inside, -, rfl⟩
    · exact h p old
    · exact h q inside
  next => exact h

theorem Legal.extend {i : ItemType} (h : i.Legal) {x : ItemTypeExtension}
    (added : ∀ d ∈ x.body.properties, d.item.Legal) : (i.extend x).value.Legal := by
  have start : (i.opened x).Legal := by
    rw [Legal, properties_opened]
    exact h
  have grown := Checked.through_preserves (P := Legal) (f := ItemType.addProperty)
    (fun _ d member legal => legal.addProperty (added d member)) start
  exact Checked.through_preserves (P := Legal) (f := ItemType.extendProperty)
    (l := x.body.propertyExtensions) (fun _ m _ legal => legal.extendProperty m) grown

end ItemType

namespace Drafts

variable {d : Drafts}

/-- Drafts in which all properties are legal. -/
def Legal (d : Drafts) : Prop :=
  ∀ i ∈ d.itemTypes, i.Legal

theorem Legal.register (h : d.Legal) {name : String} {location : Location}
    {add : Drafts → Drafts} (legal : ∀ e : Drafts, e.Legal → (add e).Legal) :
    (d.register name location add).value.Legal := by
  unfold Drafts.register
  split
  next => exact h
  next => exact legal _ h

theorem Legal.extendItemType (h : d.Legal) {x : ItemTypeExtension}
    (added : ∀ p ∈ x.body.properties, p.item.Legal) : (d.extendItemType x).value.Legal := by
  unfold Drafts.extendItemType
  split
  next => exact h
  next i found =>
    intro j member
    rcases mem_updateFirst member with old | ⟨-, -, -, rfl⟩
    · exact h j old
    · exact (h i (List.mem_of_find?_eq_some found)).extend added

theorem Legal.extendView (h : d.Legal) (x : ViewExtension) : (d.extendView x).value.Legal := by
  unfold Drafts.extendView
  split <;> exact h

theorem Legal.extendRight (h : d.Legal) (x : RightExtension) :
    (d.extendRight x).value.Legal := by
  unfold Drafts.extendRight
  split <;> exact h

theorem Legal.apply (h : d.Legal) {file : SchemaFile} (legal : file.Legal) :
    (d.apply file).value.Legal := by
  simp only [Drafts.apply, Checked.value_bind, Checked.value_pure]
  have enums := Checked.through_preserves (P := Legal) (f := Drafts.addEnum) (l := file.enums)
    (fun _ _ _ kept => kept.register fun _ same => same) h
  have itemTypes := Checked.through_preserves (P := Legal) (f := Drafts.addItemType)
    (fun _ x member kept =>
      kept.register fun _ same => forall_mem_concat same (legal.itemTypes x member)) enums
  have views := Checked.through_preserves (P := Legal) (f := Drafts.addView) (l := file.views)
    (fun _ _ _ kept => kept.register fun _ same => same) itemTypes
  have rights := Checked.through_preserves (P := Legal) (f := Drafts.addRight) (l := file.rights)
    (fun _ _ _ kept => kept.register fun _ same => same) views
  have itemTypesExtended := Checked.through_preserves (P := Legal) (f := Drafts.extendItemType)
    (fun _ x member kept => kept.extendItemType (legal.itemTypeExtensions x member)) rights
  have viewsExtended := Checked.through_preserves (P := Legal) (f := Drafts.extendView)
    (l := file.viewExtensions) (fun _ x _ kept => kept.extendView x) itemTypesExtended
  exact Checked.through_preserves (P := Legal) (f := Drafts.extendRight)
    (l := file.rightExtensions) (fun _ x _ kept => kept.extendRight x) viewsExtended

theorem legal_applyTexts (h : d.Legal) (texts : List SchemaText) : (d.applyTexts texts).Legal := by
  induction texts generalizing d with
  | nil => exact h
  | cons t rest ih =>
      refine ih ?_
      unfold Drafts.applyText
      split
      next => exact h
      next accepted => exact h.apply (SchemaFile.legal_of_read accepted)

end Drafts

/-- The defaults of a finished schema are legal. -/
theorem Finished.legal {s : Schema} (h : s.Finished) : ∀ i ∈ s.itemTypes, i.Legal := by
  obtain ⟨texts, finished⟩ := h
  obtain ⟨-, rfl⟩ := Drafts.finish_eq_ok_iff.mp finished
  have empty : ({} : Drafts).Legal := List.forall_mem_nil _
  exact Drafts.legal_applyTexts empty texts

end LearningStore.Schema
