import LearningStore.Proofs.Schema.Checked
import LearningStore.Proofs.Schema.Soundness

/-!
# Merging extensions into elements

An extension of an item type or a right passes over the declarations in it one by one.
Whatever it reports on the way, the merged element keeps its name and stays sound.
-/

namespace LearningStore.Schema

/-! ## Replacing the first member -/

section UpdateFirst

variable {α β : Type} {p : α → Bool} {f : α → α}

theorem mem_updateFirst {xs : List α} {b : α} (member : b ∈ updateFirst p f xs) :
    b ∈ xs ∨ ∃ a ∈ xs, p a = true ∧ b = f a := by
  induction xs with
  | nil => cases member
  | cons a rest ih =>
      unfold updateFirst at member
      split at member
      next chosen =>
        rcases List.mem_cons.mp member with here | later
        · exact .inr ⟨a, List.mem_cons_self, chosen, here⟩
        · exact .inl (List.mem_cons_of_mem a later)
      next =>
        rcases List.mem_cons.mp member with here | later
        · exact .inl (here ▸ List.mem_cons_self)
        · rcases ih later with old | ⟨c, inside, chosen, same⟩
          · exact .inl (List.mem_cons_of_mem a old)
          · exact .inr ⟨c, List.mem_cons_of_mem a inside, chosen, same⟩

/-- What a replacement keeps of the chosen members it keeps in the whole list. -/
theorem map_updateFirst {g : α → β} {l : List α}
    (keeps : ∀ a ∈ l, p a = true → g (f a) = g a) :
    (updateFirst p f l).map g = l.map g := by
  induction l with
  | nil => rfl
  | cons a rest ih =>
      unfold updateFirst
      split
      next chosen => rw [List.map_cons, keeps a List.mem_cons_self chosen, List.map_cons]
      next =>
        rw [List.map_cons, ih fun b inside => keeps b (List.mem_cons_of_mem a inside),
          List.map_cons]

/-- Only the first member that satisfies the condition is replaced, so that it may as well
be known before. -/
theorem updateFirst_of_find? {xs : List α} {a : α} (found : xs.find? p = some a) :
    updateFirst p (fun _ => f a) xs = updateFirst p f xs := by
  induction xs with
  | nil => cases found
  | cons b rest ih =>
      unfold updateFirst
      cases chosen : p b with
      | true =>
          rw [List.find?_cons_of_pos chosen] at found
          cases found
          rfl
      | false =>
          rw [List.find?_cons_of_neg (by simp [chosen])] at found
          rw [if_neg Bool.false_ne_true, if_neg Bool.false_ne_true, ih found]

end UpdateFirst

/-! ## Item types -/

namespace ItemType

@[simp] theorem name_grant (i : ItemType) (right : ItemRight) (more : List String) :
    (i.grant right more).name = i.name := by
  cases right <;> rfl

@[simp] theorem properties_grant (i : ItemType) (right : ItemRight) (more : List String) :
    (i.grant right more).properties = i.properties := by
  cases right <;> rfl

theorem grantAll_cons (i : ItemType) (e : ItemRight × String)
    (rest : List (ItemRight × String)) :
    i.grantAll (e :: rest) = (i.grant e.1 [e.2]).grantAll rest := rfl

@[simp] theorem name_grantAll (i : ItemType) (expressions : List (ItemRight × String)) :
    (i.grantAll expressions).name = i.name := by
  induction expressions generalizing i with
  | nil => rfl
  | cons e rest ih => rw [grantAll_cons, ih, name_grant]

@[simp] theorem properties_grantAll (i : ItemType) (expressions : List (ItemRight × String)) :
    (i.grantAll expressions).properties = i.properties := by
  induction expressions generalizing i with
  | nil => rfl
  | cons e rest ih => rw [grantAll_cons, ih, properties_grant]

theorem isSome_property?_iff {i : ItemType} {name : String} :
    (i.property? name).isSome ↔ (i.properties.any fun p => p.name == name) = true := by
  simp [property?]

@[simp] theorem name_addProperty (i : ItemType) (d : Declared Property) :
    (i.addProperty d).value.name = i.name := by
  unfold addProperty
  split <;> rfl

@[simp] theorem name_extendProperty (i : ItemType) (m : MemberExtension) :
    (i.extendProperty m).value.name = i.name := by
  unfold extendProperty
  split <;> rfl

theorem Sound.addProperty {i : ItemType} (h : i.Sound) {d : Declared Property}
    (added : d.item.Sound i.name) : (i.addProperty d).value.Sound := by
  unfold ItemType.addProperty
  split
  next => exact h
  next fresh =>
    exact ⟨h.name, forall_mem_concat h.properties added,
      nodup_names_concat h.distinct (mt isSome_property?_iff.mpr fresh)⟩

theorem Sound.extendProperty {i : ItemType} (h : i.Sound) (m : MemberExtension) :
    (i.extendProperty m).value.Sound := by
  unfold ItemType.extendProperty
  split
  next =>
    refine ⟨h.name, ?_, ?_⟩
    · intro p member
      rcases mem_updateFirst member with old | ⟨q, inside, -, rfl⟩
      · exact h.properties p old
      · exact (h.properties q inside).extended m.documentation
    · have names := map_updateFirst (p := fun p : Property => p.name == m.name)
        (f := fun p => p.extended m.documentation) (g := fun p => p.name)
        (l := i.properties) fun _ _ _ => rfl
      rw [Checked.pure_eq, Checked.value_pure, names]
      exact h.distinct
  next => exact h

/-- The item type with what an extension adds before its members. -/
def opened (i : ItemType) (x : ItemTypeExtension) : ItemType :=
  { i with documentation := i.documentation.append x.body.documentation }.grantAll
    x.body.expressions

theorem name_opened (i : ItemType) (x : ItemTypeExtension) : (i.opened x).name = i.name :=
  name_grantAll _ x.body.expressions

theorem properties_opened (i : ItemType) (x : ItemTypeExtension) :
    (i.opened x).properties = i.properties :=
  properties_grantAll _ x.body.expressions

/-- The item type with what an extension adds after its members. -/
def closed (i : ItemType) (x : ItemTypeExtension) : ItemType :=
  { i with
    indexes := (if x.replaceIndexes then [] else i.indexes) ++ x.body.indexes
    sqlAfter := i.sqlAfter ++ x.body.sqlAfter }

theorem extend_eq (i : ItemType) (x : ItemTypeExtension) :
    i.extend x = Checked.through addProperty (i.opened x) x.body.properties >>= fun j =>
      Checked.through extendProperty j x.body.propertyExtensions >>= fun j =>
        .pure (j.closed x) := rfl

/-- An extension keeps the name of its item type, and keeps it sound. -/
theorem Sound.extend {i : ItemType} (h : i.Sound) {x : ItemTypeExtension}
    (added : ∀ d ∈ x.body.properties, d.item.Sound i.name) :
    (i.extend x).value.Sound ∧ (i.extend x).value.name = i.name := by
  have start : (i.opened x).Sound ∧ (i.opened x).name = i.name := by
    have name := name_opened i x
    have properties := properties_opened i x
    exact ⟨⟨name ▸ h.name, by rw [name, properties]; exact h.properties,
      properties ▸ h.distinct⟩, name⟩
  have grown := Checked.through_preserves (P := fun j : ItemType => j.Sound ∧ j.name = i.name)
    (f := ItemType.addProperty) (l := x.body.properties) (fun j d member sound =>
      ⟨sound.1.addProperty (sound.2 ▸ added d member), (name_addProperty j d).trans sound.2⟩)
    start
  have merged := Checked.through_preserves (P := fun j : ItemType => j.Sound ∧ j.name = i.name)
    (f := ItemType.extendProperty) (l := x.body.propertyExtensions) (fun j m _ sound =>
      ⟨sound.1.extendProperty m, (name_extendProperty j m).trans sound.2⟩) grown
  exact ⟨⟨merged.1.name, merged.1.properties, merged.1.distinct⟩, merged.2⟩

end ItemType

/-! ## Views -/

namespace View

theorem Sound.extend {v : View} (h : v.Sound) (x : ViewExtension) : (v.extend x).Sound :=
  ⟨h.name, h.columns, h.parameters⟩

end View

/-! ## Rights -/

namespace Right

theorem isSome_parameter?_iff {r : Right} {name : String} :
    (r.parameter? name).isSome ↔ (r.parameters.any fun p => p.name == name) = true := by
  simp [parameter?]

@[simp] theorem name_addParameter (r : Right) (d : Declared Parameter) :
    (r.addParameter d).value.name = r.name := by
  unfold addParameter
  split <;> rfl

@[simp] theorem name_extendParameter (r : Right) (m : MemberExtension) :
    (r.extendParameter m).value.name = r.name := by
  unfold extendParameter
  split <;> rfl

theorem Sound.addParameter {r : Right} (h : r.Sound) {d : Declared Parameter}
    (added : d.item.Sound (.right r.name)) : (r.addParameter d).value.Sound := by
  unfold Right.addParameter
  split
  next => exact h
  next fresh =>
    exact ⟨h.name, forall_mem_concat h.parameters added,
      nodup_names_concat h.distinct (mt isSome_parameter?_iff.mpr fresh)⟩

theorem Sound.extendParameter {r : Right} (h : r.Sound) (m : MemberExtension) :
    (r.extendParameter m).value.Sound := by
  unfold Right.extendParameter
  split
  next =>
    refine ⟨h.name, ?_, ?_⟩
    · intro p member
      rcases mem_updateFirst member with old | ⟨q, inside, -, rfl⟩
      · exact h.parameters p old
      · exact (h.parameters q inside).extended m.documentation
    · have names := map_updateFirst (p := fun p : Parameter => p.name == m.name)
        (f := fun p => p.extended m.documentation) (g := fun p => p.name)
        (l := r.parameters) fun _ _ _ => rfl
      rw [Checked.pure_eq, Checked.value_pure, names]
      exact h.distinct
  next => exact h

/-- The right with what an extension adds before its members. -/
def opened (r : Right) (x : RightExtension) : Right :=
  { r with
    documentation := r.documentation.append x.documentation
    expressions := r.expressions ++ x.expressions }

theorem extend_eq (r : Right) (x : RightExtension) :
    r.extend x = Checked.through addParameter (r.opened x) x.parameters >>= fun q =>
      Checked.through extendParameter q x.parameterExtensions := rfl

/-- An extension keeps the name of its right, and keeps it sound. -/
theorem Sound.extend {r : Right} (h : r.Sound) {x : RightExtension}
    (added : ∀ d ∈ x.parameters, d.item.Sound (.right r.name)) :
    (r.extend x).value.Sound ∧ (r.extend x).value.name = r.name := by
  have start : (r.opened x).Sound ∧ (r.opened x).name = r.name :=
    ⟨⟨h.name, h.parameters, h.distinct⟩, rfl⟩
  have grown := Checked.through_preserves (P := fun q : Right => q.Sound ∧ q.name = r.name)
    (f := Right.addParameter) (l := x.parameters) (fun q d member sound =>
      ⟨sound.1.addParameter (sound.2 ▸ added d member), (name_addParameter q d).trans sound.2⟩)
    start
  exact Checked.through_preserves (P := fun q : Right => q.Sound ∧ q.name = r.name)
    (f := Right.extendParameter) (l := x.parameterExtensions) (fun q m _ sound =>
      ⟨sound.1.extendParameter m, (name_extendParameter q m).trans sound.2⟩) grown

end Right

end LearningStore.Schema
