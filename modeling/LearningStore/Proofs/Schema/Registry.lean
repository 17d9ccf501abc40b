import LearningStore.Proofs.Schema.Merging
import LearningStore.Proofs.Schema.Reading
import LearningStore.Schema.Drafts

/-!
# The registry of names

Texts are applied to drafts one after the other, and each may fail: a text that cannot be
read changes nothing, and what a file reports while it is merged does not undo the rest of
it.  After any such history the registry holds the names of exactly the elements that were
entered, no two of them differing in case alone, and every element is sound.
-/

namespace LearningStore.Schema

open LearningStore.Text

/-- The text of a schema file, as it is applied to drafts. -/
structure SchemaText where
  text : String
  fileName : String
  inBase : Bool
deriving DecidableEq, Repr

namespace Drafts

/-- Apply texts in order, whether or not they are accepted. -/
def applyTexts (d : Drafts) : List SchemaText → Drafts
  | [] => d
  | t :: rest => applyTexts (d.applyText t.text t.fileName t.inBase).value rest

/-- The names of all elements, one kind after the other. -/
def elementNames (d : Drafts) : List String :=
  d.enums.map EnumType.name ++ d.itemTypes.map ItemType.name ++ d.views.map View.name ++
    d.rights.map Right.name

/-- The registry holds the names of the elements without regard to case, each once. -/
structure Registered (d : Drafts) : Prop where
  names : (d.names.map Prod.fst).Perm (d.elementNames.map lowered)
  distinct : (d.elementNames.map lowered).Nodup

/-- What holds of drafts after any history. -/
structure Sound (d : Drafts) : Prop where
  registered : d.Registered
  enums : ∀ e ∈ d.enums, e.Sound
  itemTypes : ∀ i ∈ d.itemTypes, i.Sound
  views : ∀ v ∈ d.views, v.Sound
  rights : ∀ r ∈ d.rights, r.Sound

variable {d : Drafts}

theorem Sound.empty : ({} : Drafts).Sound :=
  ⟨⟨.nil, .nil⟩, by simp, by simp, by simp, by simp⟩

/-! ## Entering an element -/

theorem user?_eq_none_iff {name : String} :
    d.user? name = none ↔ lowered name ∉ d.names.map Prod.fst := by
  unfold user?
  rw [Option.map_eq_none_iff, List.find?_eq_none]
  constructor
  · intro free member
    obtain ⟨entry, inside, same⟩ := List.mem_map.mp member
    exact free entry inside (beq_iff_eq.mpr same)
  · intro free entry inside same
    exact free (List.mem_map.mpr ⟨entry, inside, beq_iff_eq.mp same⟩)

/-- Entering a name that is free, together with an element of that name, keeps the
registry in step. -/
theorem Registered.enter {d' : Drafts} {name : String} {location : Location}
    (h : d.Registered) (free : d.user? name = none)
    (entered : d'.names = d.names ++ [(lowered name, location)])
    (added : d'.elementNames.Perm (name :: d.elementNames)) : d'.Registered := by
  have lowering : (d'.elementNames.map lowered).Perm
      (lowered name :: d.elementNames.map lowered) := by
    simpa using added.map lowered
  constructor
  · rw [entered, List.map_append]
    exact (List.perm_append_singleton _ _).trans ((h.names.cons _).trans lowering.symm)
  · rw [lowering.nodup_iff, List.nodup_cons, ← h.names.mem_iff]
    exact ⟨user?_eq_none_iff.mp free, h.distinct⟩

theorem Sound.addEnum (h : d.Sound) {x : Declared EnumType} (sound : x.item.Sound) :
    (d.addEnum x).value.Sound := by
  unfold Drafts.addEnum register
  split
  next => exact h
  next free =>
    exact { h with
      registered := h.registered.enter free rfl (by simp [elementNames])
      enums := forall_mem_concat h.enums sound }

theorem Sound.addItemType (h : d.Sound) {x : Declared ItemType} (sound : x.item.Sound) :
    (d.addItemType x).value.Sound := by
  unfold Drafts.addItemType register
  split
  next => exact h
  next free =>
    have names := @List.perm_middle _ x.item.name
      (d.enums.map EnumType.name ++ d.itemTypes.map ItemType.name)
      (d.views.map View.name ++ d.rights.map Right.name)
    exact { h with
      registered := h.registered.enter free rfl (by simpa [elementNames] using names)
      itemTypes := forall_mem_concat h.itemTypes sound }

theorem Sound.addView (h : d.Sound) {x : Declared View} (sound : x.item.Sound) :
    (d.addView x).value.Sound := by
  unfold Drafts.addView register
  split
  next => exact h
  next free =>
    have names := @List.perm_middle _ x.item.name
      (d.enums.map EnumType.name ++ d.itemTypes.map ItemType.name ++ d.views.map View.name)
      (d.rights.map Right.name)
    exact { h with
      registered := h.registered.enter free rfl (by simpa [elementNames] using names)
      views := forall_mem_concat h.views sound }

theorem Sound.addRight (h : d.Sound) {x : Declared Right} (sound : x.item.Sound) :
    (d.addRight x).value.Sound := by
  unfold Drafts.addRight register
  split
  next => exact h
  next free =>
    have names := @List.perm_middle _ x.item.name d.elementNames []
    exact { h with
      registered := h.registered.enter free rfl (by simpa [elementNames] using names)
      rights := forall_mem_concat h.rights sound }

/-! ## Extending an element -/

/-- Changes that keep the names of all elements have no part in the registry. -/
theorem Registered.congr {d' : Drafts} (h : d.Registered) (entered : d'.names = d.names)
    (kept : d'.elementNames = d.elementNames) : d'.Registered :=
  ⟨by rw [entered, kept]; exact h.names, kept ▸ h.distinct⟩

theorem Sound.extendItemType (h : d.Sound) {x : ItemTypeExtension}
    (added : ∀ p ∈ x.body.properties, p.item.Sound x.name) :
    (d.extendItemType x).value.Sound := by
  unfold Drafts.extendItemType
  split
  next => exact h
  next i found =>
    have named : i.name = x.name := by simpa using List.find?_some found
    obtain ⟨sound, kept⟩ := (h.itemTypes i (List.mem_of_find?_eq_some found)).extend
      (named ▸ added)
    have names := map_updateFirst (p := fun j : ItemType => j.name == x.name)
      (f := fun _ => (i.extend x).value) (g := ItemType.name) (l := d.itemTypes)
      fun j _ chosen => kept.trans (named.trans (beq_iff_eq.mp chosen).symm)
    refine { h with registered := h.registered.congr rfl ?_, itemTypes := ?_ }
    · simp only [elementNames, names]
    · intro j member
      rcases mem_updateFirst member with old | ⟨-, -, -, rfl⟩
      · exact h.itemTypes j old
      · exact sound

theorem Sound.extendView (h : d.Sound) (x : ViewExtension) :
    (d.extendView x).value.Sound := by
  unfold Drafts.extendView
  split
  next =>
    have names := map_updateFirst (p := fun v : View => v.name == x.name)
      (f := fun v => v.extend x) (g := View.name) (l := d.views) fun _ _ _ => rfl
    refine { h with registered := h.registered.congr rfl ?_, views := ?_ }
    · simp only [Checked.pure_eq, Checked.value_pure, elementNames, names]
    · intro v member
      rcases mem_updateFirst member with old | ⟨w, inside, -, rfl⟩
      · exact h.views v old
      · exact (h.views w inside).extend x
  next => exact h

theorem Sound.extendRight (h : d.Sound) {x : RightExtension}
    (added : ∀ p ∈ x.parameters, p.item.Sound (.right x.name)) :
    (d.extendRight x).value.Sound := by
  unfold Drafts.extendRight
  split
  next => exact h
  next r found =>
    have named : r.name = x.name := by simpa using List.find?_some found
    obtain ⟨sound, kept⟩ := (h.rights r (List.mem_of_find?_eq_some found)).extend
      (named ▸ added)
    have names := map_updateFirst (p := fun q : Right => q.name == x.name)
      (f := fun _ => (r.extend x).value) (g := Right.name) (l := d.rights)
      fun q _ chosen => kept.trans (named.trans (beq_iff_eq.mp chosen).symm)
    refine { h with registered := h.registered.congr rfl ?_, rights := ?_ }
    · simp only [elementNames, names]
    · intro q member
      rcases mem_updateFirst member with old | ⟨-, -, -, rfl⟩
      · exact h.rights q old
      · exact sound

/-! ## Histories -/

/-- Applying a file of sound declarations keeps drafts sound, also where it reports
problems. -/
theorem Sound.apply (h : d.Sound) {file : SchemaFile} (sound : file.Sound) :
    (d.apply file).value.Sound := by
  simp only [Drafts.apply, Checked.value_bind, Checked.value_pure]
  have enums := Checked.through_preserves (P := Sound)
    (fun _ x member kept => kept.addEnum (sound.enums x member)) h
  have itemTypes := Checked.through_preserves (P := Sound)
    (fun _ x member kept => kept.addItemType (sound.itemTypes x member)) enums
  have views := Checked.through_preserves (P := Sound)
    (fun _ x member kept => kept.addView (sound.views x member)) itemTypes
  have rights := Checked.through_preserves (P := Sound)
    (fun _ x member kept => kept.addRight (sound.rights x member)) views
  have itemTypesExtended := Checked.through_preserves (P := Sound)
    (fun _ x member kept => kept.extendItemType (sound.itemTypeExtensions x member)) rights
  have viewsExtended := Checked.through_preserves (P := Sound) (l := file.viewExtensions)
    (fun _ x _ kept => kept.extendView x) itemTypesExtended
  have rightsExtended := Checked.through_preserves (P := Sound)
    (fun _ x member kept => kept.extendRight (sound.rightExtensions x member)) viewsExtended
  exact { rightsExtended with registered := rightsExtended.registered.congr rfl rfl }

theorem Sound.applyText (h : d.Sound) (text fileName : String) (inBase : Bool) :
    (d.applyText text fileName inBase).value.Sound := by
  unfold Drafts.applyText
  split
  next => exact h
  next accepted => exact h.apply (SchemaFile.sound_of_read accepted)

/-- Drafts are sound after any history. -/
theorem sound_applyTexts (h : d.Sound) (texts : List SchemaText) :
    (d.applyTexts texts).Sound := by
  induction texts generalizing d with
  | nil => exact h
  | cons t rest ih => exact ih (h.applyText t.text t.fileName t.inBase)

/-! ## Consistency -/

/-- The registry has one entry for every element and no other, names do not repeat where
they must not, and every member knows the element that holds it. -/
structure Consistent (d : Drafts) : Prop where
  keys : ∀ key, key ∈ d.names.map Prod.fst ↔ ∃ name ∈ d.elementNames, lowered name = key
  keys_distinct : (d.names.map Prod.fst).Nodup
  names_distinct : (d.elementNames.map lowered).Nodup
  properties_distinct : ∀ i ∈ d.itemTypes, (i.properties.map fun p => p.name).Nodup
  parameters_distinct : ∀ r ∈ d.rights, (r.parameters.map fun p => p.name).Nodup
  values_distinct : ∀ e ∈ d.enums, (e.values.map EnumValue.name).Nodup
  no_id : ∀ i ∈ d.itemTypes, ∀ p ∈ i.properties, p.name ≠ "Id"
  property_owner : ∀ i ∈ d.itemTypes, ∀ p ∈ i.properties, p.owner = i.name
  column_owner : ∀ v ∈ d.views, ∀ c ∈ v.columns, c.owner = v.name
  view_parameter_owner : ∀ v ∈ d.views, ∀ p ∈ v.parameters, p.owner = .view v.name
  right_parameter_owner : ∀ r ∈ d.rights, ∀ p ∈ r.parameters, p.owner = .right r.name

theorem Sound.consistent (h : d.Sound) : d.Consistent where
  keys key := by rw [h.registered.names.mem_iff, List.mem_map]
  keys_distinct := h.registered.names.nodup_iff.mpr h.registered.distinct
  names_distinct := h.registered.distinct
  properties_distinct i member := (h.itemTypes i member).distinct
  parameters_distinct r member := (h.rights r member).distinct
  values_distinct e member := (h.enums e member).distinct
  no_id i member p inside := ((h.itemTypes i member).properties p inside).name_ne
  property_owner i member p inside := ((h.itemTypes i member).properties p inside).owner_eq
  column_owner v member c inside := ((h.views v member).columns c inside).owner_eq
  view_parameter_owner v member p inside := ((h.views v member).parameters p inside).owner_eq
  right_parameter_owner r member p inside := ((h.rights r member).parameters p inside).owner_eq

/-- New drafts are consistent after any texts, also where some of them were refused or
were accepted in part. -/
theorem consistent_applyTexts (texts : List SchemaText) :
    (({} : Drafts).applyTexts texts).Consistent :=
  (sound_applyTexts .empty texts).consistent

end Drafts

end LearningStore.Schema
