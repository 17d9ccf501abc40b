import LearningStore.Proofs.Schema.Growth
import LearningStore.Proofs.Schema.Sifting
import Mathlib.Data.List.ReduceOption

/-!
# What extensions make of an item type

Extensions are merged into an item type one by one, as they come from the files of a history.  In
the end the item type is what one would write down for all of them at once: the declaration and
the extensions in order, list by list and text by text.  Indexes are the one exception, since an
extension may replace what was there before it.
-/

namespace LearningStore.Schema

/-! ## Texts in a row -/

/-- All texts that are given, one after the other; nothing, if none is given. -/
def concatenated (texts : List (Option String)) : Option String :=
  match texts.reduceOption with
  | [] => none
  | given => some (String.join given)

theorem joinText_eq (a b : Option String) : Documentation.joinText a b = concatenated [a, b] := by
  cases a <;> cases b <;> simp [Documentation.joinText, concatenated, String.join_cons]

theorem concatenated_append (first more : List (Option String)) :
    concatenated (first ++ more) = concatenated (concatenated first :: more) := by
  unfold concatenated
  rw [List.reduceOption_append]
  cases first.reduceOption with
  | nil => rfl
  | cons text others =>
      rw [List.reduceOption_cons_of_some, List.cons_append]
      simp only [String.join_cons, String.join_append, String.append_assoc]

namespace Documentation

/-- Several documentations in a row, each kind of text for itself. -/
def concatenated (ds : List Documentation) : Documentation :=
  ⟨Schema.concatenated (ds.map summary), Schema.concatenated (ds.map remarks)⟩

theorem append_eq (d extra : Documentation) : d.append extra = concatenated [d, extra] := by
  rw [append, joinText_eq, joinText_eq]
  rfl

theorem concatenated_singleton (d : Documentation) : concatenated [d] = d := by
  obtain ⟨summary, remarks⟩ := d
  cases summary <;> cases remarks <;> simp [concatenated, Schema.concatenated, String.join_cons]

theorem concatenated_append (first more : List Documentation) :
    concatenated (first ++ more) = concatenated (concatenated first :: more) := by
  simp only [concatenated, List.map_append, Schema.concatenated_append, List.map_cons]

end Documentation

/-! ## Properties -/

namespace Property

/-- What extensions have as documentation for the property. -/
def extras (p : Property) (ms : List MemberExtension) : List Documentation :=
  (ms.filter fun m => m.name == p.name).map MemberExtension.documentation

/-- The property with the documentation that extensions have for it. -/
def documented (p : Property) (ms : List MemberExtension) : Property :=
  { p with documentation := .concatenated (p.documentation :: p.extras ms) }

theorem documented_of_unnamed {p : Property} {ms : List MemberExtension}
    (unnamed : ∀ m ∈ ms, m.name ≠ p.name) : p.documented ms = p := by
  have none_chosen : (ms.filter fun m => m.name == p.name) = [] :=
    List.filter_eq_nil_iff.mpr fun m inside => by simpa using unnamed m inside
  rw [documented, extras, none_chosen, List.map_nil, Documentation.concatenated_singleton]

theorem documented_append (p : Property) (ms ns : List MemberExtension) :
    p.documented (ms ++ ns) = (p.documented ms).documented ns := by
  unfold documented
  rw [extras, List.filter_append, List.map_append, ← List.cons_append,
    Documentation.concatenated_append]
  rfl

theorem documented_singleton {p : Property} {m : MemberExtension} (named : m.name = p.name) :
    p.documented [m] = p.extended m.documentation := by
  unfold documented extended
  rw [extras, List.filter_cons_of_pos (by simpa using named), List.filter_nil, List.map_singleton,
    Documentation.append_eq]

end Property

/-- Where keys are distinct, replacing the first member with a key is replacing all of them. -/
theorem updateFirst_eq_map {α : Type} {keyOf : α → String} {key : String} {f : α → α} {l : List α}
    (distinct : (l.map keyOf).Nodup) :
    updateFirst (fun a => keyOf a == key) f l =
      l.map fun a => if keyOf a == key then f a else a := by
  induction l with
  | nil => rfl
  | cons a rest ih =>
      obtain ⟨fresh, others⟩ := List.nodup_cons.mp distinct
      rw [updateFirst, List.map_cons]
      split
      next chosen =>
        congr 1
        have untouched (b : α) (inside : b ∈ rest) : (if keyOf b == key then f b else b) = b := by
          refine if_neg fun again => fresh ?_
          rw [beq_iff_eq.mp chosen, ← beq_iff_eq.mp again]
          exact List.mem_map_of_mem inside
        rw [List.map_congr_left untouched, List.map_id']
      next => rw [ih others]

/-! ## Item types -/

/-- The properties that an extension adds. -/
def ItemTypeExtension.added (x : ItemTypeExtension) : List Property :=
  x.body.properties.map Declared.item

namespace ItemType

/-- What several extensions are to make of an item type. -/
structure MergedFrom (i : ItemType) (xs : List ItemTypeExtension) (j : ItemType) : Prop where
  name : j.name = i.name
  inBase : j.inBase = i.inBase
  properties : j.properties = (i.properties ++ xs.flatMap ItemTypeExtension.added).map fun p =>
    p.documented (xs.flatMap fun x => x.body.propertyExtensions)
  expressions : ∀ right,
    j.expressions right = i.expressions right ++ xs.flatMap fun x => x.body.expressionsOf right
  sqlAfter : j.sqlAfter = i.sqlAfter ++ xs.flatMap fun x => x.body.sqlAfter
  documentation : j.documentation =
    .concatenated (i.documentation :: xs.map fun x => x.body.documentation)
  replaced : ∀ before x after, xs = before ++ x :: after → x.replaceIndexes = true →
    (∀ y ∈ after, y.replaceIndexes = false) →
      j.indexes = (x :: after).flatMap fun y => y.body.indexes
  kept : (∀ x ∈ xs, x.replaceIndexes = false) →
    j.indexes = i.indexes ++ xs.flatMap fun x => x.body.indexes

/-! ### Grant expressions -/

theorem expressions_grantAll (i : ItemType) (expressions : List (ItemRight × String))
    (right : ItemRight) : (i.grantAll expressions).expressions right =
      i.expressions right ++ (expressions.filter fun e => e.1 == right).map Prod.snd := by
  induction expressions generalizing i with
  | nil => exact (List.append_nil _).symm
  | cons e rest ih =>
      rw [grantAll_cons, ih, expressions_grant, List.filter_cons]
      by_cases same : e.1 = right
      · simp [same]
      · simp [same]

/-- Granting leaves everything else as it is. -/
theorem grantAll_beside (i : ItemType) (expressions : List (ItemRight × String)) :
    (i.grantAll expressions).inBase = i.inBase ∧
      (i.grantAll expressions).indexes = i.indexes ∧
        (i.grantAll expressions).sqlAfter = i.sqlAfter ∧
          (i.grantAll expressions).documentation = i.documentation := by
  induction expressions generalizing i with
  | nil => exact ⟨rfl, rfl, rfl, rfl⟩
  | cons e rest ih =>
      rw [grantAll_cons]
      obtain ⟨right, text⟩ := e
      cases right <;> exact ih _

/-! ### Properties -/

/-- The names of all properties. -/
def propertyNames (i : ItemType) : List String :=
  i.properties.map fun p => p.name

/-- The item type with properties behind those that it has. -/
def adding (i : ItemType) (ps : List Property) : ItemType :=
  { i with properties := i.properties ++ ps }

/-- The item type with the documentation that extensions have for its properties. -/
def documented (i : ItemType) (ms : List MemberExtension) : ItemType :=
  { i with properties := i.properties.map fun p => p.documented ms }

theorem propertyNames_documented (i : ItemType) (ms : List MemberExtension) :
    (i.documented ms).propertyNames = i.propertyNames :=
  List.map_map

theorem documented_nil (i : ItemType) : i.documented [] = i := by
  have same : i.properties.map (fun p => p.documented []) = i.properties :=
    List.map_id'' (fun p => p.documented_of_unnamed nofun) _
  rw [documented, same]

theorem documented_append (i : ItemType) (ms ns : List MemberExtension) :
    i.documented (ms ++ ns) = (i.documented ms).documented ns := by
  simp only [documented, List.map_map]
  congr 1
  exact List.map_congr_left fun p _ => p.documented_append ms ns

/-- Documentation for a property is put behind what the property of that name has. -/
theorem value_extendProperty {i : ItemType} {m : MemberExtension}
    (distinct : i.propertyNames.Nodup) (clean : (i.extendProperty m).Clean) :
    (i.extendProperty m).value = i.documented [m] ∧ m.name ∈ i.propertyNames := by
  unfold extendProperty at clean ⊢
  split
  next present =>
    constructor
    · rw [Checked.pure_eq, Checked.value_pure, updateFirst_eq_map distinct, documented]
      congr 1
      refine List.map_congr_left fun p _ => ?_
      split
      next chosen => rw [Property.documented_singleton (beq_iff_eq.mp chosen).symm]
      next other =>
        rw [Property.documented_of_unnamed]
        exact List.forall_mem_singleton.mpr fun same => other (beq_iff_eq.mpr same.symm)
    · obtain ⟨p, inside, named⟩ := List.any_eq_true.mp (isSome_property?_iff.mp present)
      exact List.mem_map.mpr ⟨p, inside, beq_iff_eq.mp named⟩
  next missing =>
    rw [if_neg missing] at clean
    cases clean

theorem value_through_extendProperty {i : ItemType} {ms : List MemberExtension}
    (distinct : i.propertyNames.Nodup) (clean : (Checked.through extendProperty i ms).Clean) :
    (Checked.through extendProperty i ms).value = i.documented ms ∧
      ∀ m ∈ ms, m.name ∈ i.propertyNames := by
  induction ms generalizing i with
  | nil => exact ⟨i.documented_nil.symm, nofun⟩
  | cons m rest ih =>
      obtain ⟨first, others⟩ := Checked.clean_bind.mp clean
      obtain ⟨step, present⟩ := value_extendProperty distinct first
      rw [step] at others
      have names := i.propertyNames_documented [m]
      obtain ⟨value, known⟩ := ih (names ▸ distinct) others
      rw [names] at known
      refine ⟨?_, List.forall_mem_cons.mpr ⟨present, known⟩⟩
      rw [Checked.through, Checked.bind_eq, Checked.value_bind, step, value]
      exact (i.documented_append [m] rest).symm

/-- Properties are added under names that are not taken, so that names stay distinct. -/
theorem distinct_through_addProperty {i : ItemType} {ds : List (Declared Property)}
    (distinct : i.propertyNames.Nodup) :
    (Checked.through addProperty i ds).value.propertyNames.Nodup := by
  refine Checked.through_preserves (P := fun j : ItemType => j.propertyNames.Nodup)
    (fun j d _ kept => ?_) distinct
  unfold addProperty
  split
  next => exact kept
  next fresh => exact nodup_names_concat kept (mt isSome_property?_iff.mpr fresh)

/-! ### One extension -/

/-- An item type before and after an extension that reports nothing. -/
structure ExtendedBy (i : ItemType) (x : ItemTypeExtension) (j : ItemType) : Prop where
  name : j.name = i.name
  inBase : j.inBase = i.inBase
  properties : j.properties =
    (i.adding x.added).properties.map fun p => p.documented x.body.propertyExtensions
  expressions : ∀ right, j.expressions right = i.expressions right ++ x.body.expressionsOf right
  sqlAfter : j.sqlAfter = i.sqlAfter ++ x.body.sqlAfter
  documentation : j.documentation = i.documentation.append x.body.documentation
  indexes : j.indexes = (if x.replaceIndexes then [] else i.indexes) ++ x.body.indexes
  distinct : (i.adding x.added).propertyNames.Nodup
  known : ∀ m ∈ x.body.propertyExtensions, m.name ∈ (i.adding x.added).propertyNames

theorem extendedBy_of_clean {i : ItemType} {x : ItemTypeExtension}
    (distinct : i.propertyNames.Nodup) (clean : (i.extend x).Clean) :
    i.ExtendedBy x (i.extend x).value := by
  rw [extend_eq, Checked.clean_bind, Checked.clean_bind] at clean
  obtain ⟨adding, documenting, -⟩ := clean
  have start := i.properties_opened x
  have opened : (i.opened x).propertyNames.Nodup := by rwa [propertyNames, start]
  have apart :
      (Checked.through addProperty (i.opened x) x.body.properties).value.propertyNames.Nodup :=
    distinct_through_addProperty opened
  have added : (Checked.through addProperty (i.opened x) x.body.properties).value =
      (i.opened x).adding x.added := value_through_addProperty adding
  have properties : ((i.opened x).adding x.added).properties = (i.adding x.added).properties := by
    rw [ItemType.adding, start]
    rfl
  have names : ((i.opened x).adding x.added).propertyNames = (i.adding x.added).propertyNames :=
    congrArg (List.map fun p : Property => p.name) properties
  obtain ⟨documented, known⟩ := value_through_extendProperty apart documenting
  rw [added, names] at apart known
  have value : (i.extend x).value =
      (((i.opened x).adding x.added).documented x.body.propertyExtensions).closed x := by
    rw [extend_eq, Checked.value_bind, Checked.value_bind, documented, added]
    rfl
  obtain ⟨inBase, indexes, sqlAfter, documentation⟩ := grantAll_beside
    { i with documentation := i.documentation.append x.body.documentation } x.body.expressions
  have granted := expressions_grantAll
    { i with documentation := i.documentation.append x.body.documentation } x.body.expressions
  rw [value]
  exact {
    name := i.name_opened x
    inBase := inBase
    properties :=
      congrArg (List.map fun p : Property => p.documented x.body.propertyExtensions) properties
    expressions := fun
      | .query => granted .query
      | .add => granted .add
      | .update => granted .update
      | .delete => granted .delete
    sqlAfter := congrArg (· ++ x.body.sqlAfter) sqlAfter
    documentation := documentation
    indexes := congrArg (fun l => (if x.replaceIndexes then [] else l) ++ x.body.indexes) indexes
    distinct := apart
    known := known }

theorem ExtendedBy.propertyNames {i j : ItemType} {x : ItemTypeExtension} (h : i.ExtendedBy x j) :
    j.propertyNames = (i.adding x.added).propertyNames := by
  rw [ItemType.propertyNames, h.properties]
  exact List.map_map

/-! ### Several extensions -/

/-- What holds while extensions are merged: the names of properties are distinct, and whatever is
documented is there. -/
structure Merging (i : ItemType) (xs : List ItemTypeExtension) (j : ItemType) : Prop
    extends MergedFrom i xs j where
  distinct : j.propertyNames.Nodup
  known : ∀ x ∈ xs, ∀ m ∈ x.body.propertyExtensions, m.name ∈ j.propertyNames

theorem Merging.start {i : ItemType} (distinct : i.propertyNames.Nodup) : i.Merging [] i where
  name := rfl
  inBase := rfl
  properties := by
    simp only [List.flatMap_nil, List.append_nil]
    exact congrArg ItemType.properties i.documented_nil.symm
  expressions _ := (List.append_nil _).symm
  sqlAfter := (List.append_nil _).symm
  documentation := (Documentation.concatenated_singleton _).symm
  replaced before x after split := by cases before <;> cases split
  kept _ := (List.append_nil _).symm
  distinct := distinct
  known := nofun

/-- A new property is named by no extension before it, so that documentation of all extensions is
documentation of those that come with it or after. -/
theorem Merging.properties_adding {i j : ItemType} {xs : List ItemTypeExtension}
    (h : i.Merging xs j) {ps : List Property} (distinct : (j.adding ps).propertyNames.Nodup) :
    (j.adding ps).properties =
      (i.properties ++ xs.flatMap ItemTypeExtension.added ++ ps).map fun p =>
        p.documented (xs.flatMap fun x => x.body.propertyExtensions) := by
  have names : (j.adding ps).propertyNames = j.propertyNames ++ ps.map fun p => p.name :=
    List.map_append
  rw [names, List.nodup_append] at distinct
  have untouched (p : Property) (inside : p ∈ ps) :
      p.documented (xs.flatMap fun x => x.body.propertyExtensions) = p := by
    refine Property.documented_of_unnamed fun m given same => ?_
    obtain ⟨x, listed, extends_⟩ := List.mem_flatMap.mp given
    exact distinct.2.2 _ (h.known x listed m extends_) _ (List.mem_map_of_mem inside) same
  rw [List.map_append, ← h.properties, List.map_congr_left untouched, List.map_id']
  rfl

/-- Only the last extension that replaces the indexes counts: the new one, or one before it. -/
theorem Merging.indexes_extend {i j k : ItemType} {xs before after : List ItemTypeExtension}
    {x y : ItemTypeExtension} (h : i.Merging xs j) (step : j.ExtendedBy x k)
    (split : xs ++ [x] = before ++ y :: after) (replaces : y.replaceIndexes = true)
    (others : ∀ z ∈ after, z.replaceIndexes = false) :
    k.indexes = (y :: after).flatMap fun z => z.body.indexes := by
  rcases List.eq_nil_or_concat after with rfl | ⟨between, z, rfl⟩
  · obtain ⟨-, same⟩ := List.append_inj' split rfl
    cases same
    rw [step.indexes, if_pos replaces, List.nil_append, List.flatMap_singleton]
  · rw [List.concat_eq_append] at split others ⊢
    rw [← List.cons_append, ← List.append_assoc] at split
    obtain ⟨earlier, same⟩ := List.append_inj' split rfl
    cases same
    obtain ⟨others, last⟩ := List.forall_mem_append.mp others
    rw [step.indexes, List.forall_mem_singleton.mp last, h.replaced before y between earlier
      replaces others, ← List.cons_append, List.flatMap_append, List.flatMap_singleton]
    rfl

/-- What an extension names stays among the properties. -/
theorem Merging.known_extend {i j k : ItemType} {xs : List ItemTypeExtension}
    {x : ItemTypeExtension} (h : i.Merging xs j) (step : j.ExtendedBy x k) :
    ∀ y ∈ xs ++ [x], ∀ m ∈ y.body.propertyExtensions, m.name ∈ k.propertyNames := by
  have names :
      (j.adding x.added).propertyNames = j.propertyNames ++ x.added.map fun p => p.name :=
    List.map_append
  rw [step.propertyNames]
  refine List.forall_mem_append.mpr ⟨fun y listed m given => ?_, ?_⟩
  · rw [names]
    exact List.mem_append_left _ (h.known y listed m given)
  · exact List.forall_mem_singleton.mpr step.known

theorem Merging.extend {i j k : ItemType} {xs : List ItemTypeExtension} {x : ItemTypeExtension}
    (h : i.Merging xs j) (step : j.ExtendedBy x k) : i.Merging (xs ++ [x]) k where
  name := step.name.trans h.name
  inBase := step.inBase.trans h.inBase
  properties := by
    simp only [List.flatMap_append, List.flatMap_singleton]
    rw [step.properties, h.properties_adding step.distinct, List.map_map, ← List.append_assoc]
    exact List.map_congr_left fun p _ => (p.documented_append _ _).symm
  expressions right := by
    rw [step.expressions, h.expressions, List.flatMap_append, List.flatMap_singleton,
      List.append_assoc]
  sqlAfter := by
    rw [step.sqlAfter, h.sqlAfter, List.flatMap_append, List.flatMap_singleton, List.append_assoc]
  documentation := by
    rw [step.documentation, h.documentation, Documentation.append_eq, List.map_append,
      List.map_singleton, ← List.cons_append, Documentation.concatenated_append]
  replaced _ _ _ split replaces others := h.indexes_extend step split replaces others
  kept := by
    intro none_replaces
    obtain ⟨others, last⟩ := List.forall_mem_append.mp none_replaces
    rw [step.indexes, List.forall_mem_singleton.mp last, h.kept others, List.flatMap_append,
      List.flatMap_singleton, ← List.append_assoc]
    rfl
  distinct := step.propertyNames.symm ▸ step.distinct
  known := h.known_extend step

/-- Extensions of which none reports anything make of an item type what they are to make of it. -/
theorem merging_through {i : ItemType} {xs : List ItemTypeExtension}
    (distinct : i.propertyNames.Nodup) (clean : (Checked.through ItemType.extend i xs).Clean) :
    i.Merging xs (Checked.through ItemType.extend i xs).value := by
  induction xs using List.reverseRecOn with
  | nil => exact .start distinct
  | append_singleton xs x ih =>
      rw [Checked.clean_through_append, Checked.through_singleton] at clean
      have before := ih clean.1
      rw [Checked.value_through_append, Checked.through_singleton]
      exact before.extend (extendedBy_of_clean before.distinct clean.2)

end ItemType

namespace Sample

/-- An extension that documents a property and adds an index. -/
def documenting : ItemTypeExtension :=
  ⟨"Pet", ⟨"pet.xml", 1, 1⟩, false,
    ⟨{}, [], [], [⟨"Mood", ⟨"pet.xml", 2, 1⟩, ⟨some "Now.", none⟩⟩], ["A"], []⟩⟩

/-- An extension that documents the item type and replaces its indexes. -/
def replacing : ItemTypeExtension :=
  ⟨"Pet", ⟨"pet.xml", 3, 1⟩, true, ⟨⟨some "A pet.", none⟩, [], [], [], ["B"], []⟩⟩

def pet : ItemType :=
  ⟨"Pet", [moodProperty], [], ["@a"], [], [], ["C"], [], {}, true⟩

example : (Checked.through ItemType.extend pet [documenting, replacing]).value =
    { pet with
      properties := [moodProperty.extended ⟨some "Now.", none⟩]
      indexes := ["B"]
      documentation := ⟨some "A pet.", none⟩ } := by
  decide

end Sample

/-! ## Lists of elements -/

namespace Merge

variable {α ξ : Type} {m : Merge α ξ}

/-- The extensions that name an element. -/
def directed (m : Merge α ξ) (a : α) (xs : List ξ) : List ξ :=
  xs.filter fun x => m.nameOf a == m.target x

/-- The element after an extension that may name it or not. -/
def advance (m : Merge α ξ) (x : ξ) (a : α) : α :=
  if m.nameOf a == m.target x then (m.extend a x).value else a

/-- Where names are distinct, an extension that is clean changes the element that it names, and
merging it there is clean. -/
theorem into_eq_map {l : List α} {x : ξ} (distinct : (l.map m.nameOf).Nodup)
    (clean : (m.into l x).Clean) : (m.into l x).value = l.map (m.advance x) ∧
      ∀ a ∈ l, m.nameOf a = m.target x → (m.extend a x).Clean := by
  cases found : l.find? fun a => m.nameOf a == m.target x with
  | none =>
      rw [into_of_none found] at clean
      cases clean
  | some a =>
      rw [into_of_some found] at clean ⊢
      constructor
      · exact (updateFirst_of_find? (f := fun a => (m.extend a x).value) found).trans
          (updateFirst_eq_map distinct)
      · intro b inside named
        have same := (find?_eq_some_iff distinct).mpr ⟨inside, named⟩
        rw [found] at same
        cases same
        exact clean

theorem directed_cons_of_named {a : α} {x : ξ} (named : m.nameOf a = m.target x) (xs : List ξ) :
    m.directed a (x :: xs) = x :: m.directed a xs :=
  List.filter_cons_of_pos (beq_iff_eq.mpr named)

theorem directed_cons_of_not_named {a : α} {x : ξ} (other : m.nameOf a ≠ m.target x)
    (xs : List ξ) : m.directed a (x :: xs) = m.directed a xs :=
  List.filter_cons_of_neg fun named => other (beq_iff_eq.mp named)

/-- Where names are distinct, each element takes the extensions that name it as if there were no
others. -/
theorem all_eq_map (keeps : ∀ a x, m.nameOf (m.extend a x).value = m.nameOf a) {l : List α}
    {xs : List ξ} (distinct : (l.map m.nameOf).Nodup) (clean : (m.all l xs).Clean) :
    (m.all l xs).value =
        l.map (fun a => (Checked.through m.extend a (m.directed a xs)).value) ∧
      ∀ a ∈ l, (Checked.through m.extend a (m.directed a xs)).Clean := by
  induction xs generalizing l with
  | nil => exact ⟨(List.map_id' l).symm, fun _ _ => rfl⟩
  | cons x rest ih =>
      obtain ⟨first, others⟩ := Checked.clean_bind.mp clean
      obtain ⟨value, merges⟩ := into_eq_map distinct first
      have names : ∀ a, m.nameOf (m.advance x a) = m.nameOf a := fun a => by
        unfold advance
        split
        next => exact keeps a x
        next => rfl
      have start : ((m.into l x).value.map m.nameOf).Nodup := by
        have same : m.nameOf ∘ m.advance x = m.nameOf := funext names
        rwa [value, List.map_map, same]
      obtain ⟨made, passes⟩ := ih start others
      rw [value] at made passes
      -- An element takes the first extension if it is named there, and then the others.
      have step (a : α) (inside : a ∈ l) :
          (Checked.through m.extend (m.advance x a) (m.directed (m.advance x a) rest)).value =
            (Checked.through m.extend a (m.directed a (x :: rest))).value ∧
          (Checked.through m.extend a (m.directed a (x :: rest))).Clean := by
        have later := passes _ (List.mem_map_of_mem inside)
        rw [directed, names, ← directed] at later ⊢
        by_cases named : m.nameOf a = m.target x
        · rw [advance, if_pos (beq_iff_eq.mpr named)] at later ⊢
          rw [directed_cons_of_named named]
          exact ⟨rfl, Checked.clean_bind.mpr ⟨merges a inside named, later⟩⟩
        · rw [advance, if_neg (mt beq_iff_eq.mp named)] at later ⊢
          rw [directed_cons_of_not_named named]
          exact ⟨rfl, later⟩
      refine ⟨?_, fun a inside => (step a inside).2⟩
      have whole : (m.all l (x :: rest)).value = (m.all (l.map (m.advance x)) rest).value :=
        congrArg (fun l => (m.all l rest).value) value
      rw [whole, made, List.map_map]
      exact List.map_congr_left fun a inside => (step a inside).1

end Merge

/-! ## Histories -/

namespace Drafts

/-- What is accepted of a history: of every text that is read, what is left without the parts that
are refused at its turn. -/
def accepted (d : Drafts) : List SchemaText → List SchemaFile
  | [] => []
  | t :: rest =>
      let others := accepted (d.applyText t.text t.fileName t.inBase).value rest
      match SchemaFile.read t.text t.fileName t.inBase with
      | .error _ => others
      | .ok f => (d.sift f).kept :: others

/-- What is accepted of a history makes the same drafts, without problems. -/
theorem through_accepted (d : Drafts) (texts : List SchemaText) :
    Checked.through apply d (d.accepted texts) = .pure (d.applyTexts texts) := by
  induction texts generalizing d with
  | nil => rfl
  | cons t rest ih =>
      have others := ih (d.applyText t.text t.fileName t.inBase).value
      rw [accepted, applyTexts]
      split
      next problems refused =>
        have stays : (d.applyText t.text t.fileName t.inBase).value = d :=
          value_applyText_of_refused (by rw [refused]; rfl)
        rw [stays] at others ⊢
        exact others
      next f read =>
        have applied := applyText_of_read (d := d) read
        have first : Checked.through apply d [(d.sift f).kept] =
            .pure (d.applyText t.text t.fileName t.inBase).value := by
          rw [Checked.through_singleton, d.apply_sift f, applied]
        exact (Checked.through_append_of_pure first _).trans others

/-- Where nothing is reported, all is accepted. -/
theorem accepted_of_clean {d : Drafts} {texts : List SchemaText} {files : List SchemaFile}
    (read : List.Forall₂ (fun t f => SchemaFile.read t.text t.fileName t.inBase = .ok f)
      texts files)
    (clean : (Checked.through apply d files).Clean) : d.accepted texts = files := by
  induction read generalizing d with
  | nil => rfl
  | cons first others ih =>
      obtain ⟨here, later⟩ := Checked.clean_bind.mp clean
      have rest := ih later
      rw [← applyText_of_read first] at rest
      rw [accepted, first, rest]
      exact congrArg (· :: _) (kept_sift here)

/-- The item types that are accepted of a history have properties with distinct names. -/
theorem distinct_of_accepted {d : Drafts} {texts : List SchemaText} :
    ∀ f ∈ d.accepted texts, ∀ x ∈ f.itemTypes, x.item.propertyNames.Nodup := by
  induction texts generalizing d with
  | nil => exact nofun
  | cons t rest ih =>
      rw [accepted]
      split
      next => exact ih
      next f read =>
        refine List.forall_mem_cons.mpr ⟨fun x kept => ?_, ih⟩
        have declared : x ∈ f.itemTypes := (Sifted.sublist_all_refusing _ _).subset kept
        exact ((SchemaFile.sound_of_read read).itemTypes x declared).distinct

end Drafts

namespace SchemaFile

/-- The item types that several files declare, in order. -/
def declaredIn (files : List SchemaFile) : List ItemType :=
  files.flatMap fun f => f.itemTypes.map Declared.item

/-- The extensions of an item type in several files, in the order in which they are applied. -/
def extensionsIn (files : List SchemaFile) (i : ItemType) : List ItemTypeExtension :=
  (files.flatMap itemTypeExtensions).filter fun x => i.name == x.name

end SchemaFile

namespace Drafts

open SchemaFile

theorem mergedFrom_of_through {files : List SchemaFile} {d : Drafts}
    (distinct : ∀ f ∈ files, ∀ x ∈ f.itemTypes, x.item.propertyNames.Nodup)
    (applied : Checked.through apply {} files = .pure d) :
    List.Forall₂ (fun i j => i.MergedFrom (extensionsIn files i) j) (declaredIn files)
      d.itemTypes := by
  obtain ⟨e, joined, agrees⟩ := apply_joinAll "" applied
  obtain ⟨accepted, rfl⟩ := apply_eq_pure_iff.mp joined
  have declared := itemTypes_joinAll "" files
  have extensions : (joinAll "" files).itemTypeExtensions =
      files.flatMap SchemaFile.itemTypeExtensions :=
    flatMap_joinAll (fun _ _ _ => rfl) "" rfl files
  have listed : (itemTypeKind.entries (joinAll "" files).itemTypes).Sublist
      (joinAll "" files).entries :=
    (List.sublist_append_left _ _).trans (List.sublist_append_right _ _)
  have names : ((declaredIn files).map ItemType.name).Nodup := by
    rw [declaredIn, ← List.map_flatMap, ← declared]
    exact ElementKind.distinct_of_entries (k := itemTypeKind) accepted.names.distinct listed
  have clean : (itemTypeMerge.all (declaredIn files)
      (files.flatMap SchemaFile.itemTypeExtensions)).Clean := by
    rw [declaredIn, ← List.map_flatMap, ← declared, ← extensions]
    exact accepted.itemTypes
  have made : d.itemTypes = (itemTypeMerge.all (declaredIn files)
      (files.flatMap SchemaFile.itemTypeExtensions)).value := by
    rw [← agrees.itemTypes, declaredIn, ← List.map_flatMap, ← declared, ← extensions]
    rfl
  obtain ⟨value, passes⟩ :=
    Merge.all_eq_map (fun i x => (i.grown_extend x).1.name) names clean
  rw [made, value, List.forall₂_map_right_iff, List.forall₂_same]
  intro i inside
  obtain ⟨f, listed, declares⟩ := List.mem_flatMap.mp inside
  obtain ⟨x, given, rfl⟩ := List.mem_map.mp declares
  exact (ItemType.merging_through (distinct f listed x given) (passes _ inside)).toMergedFrom

/-- Whatever the history of a schema, its item types are those that the accepted files declare, in
order, and each is what its extensions in these files are to make of it.  Where the files report
nothing, they are accepted as they are read. -/
theorem mergedFrom_of_finished {texts : List SchemaText} {s : Schema}
    (finished : (({} : Drafts).applyTexts texts).finish = .ok s) :
    List.Forall₂ (fun i j => i.MergedFrom (extensionsIn (({} : Drafts).accepted texts) i) j)
        (declaredIn (({} : Drafts).accepted texts)) s.itemTypes ∧
      ∀ files : List SchemaFile,
        List.Forall₂ (fun t f => SchemaFile.read t.text t.fileName t.inBase = .ok f) texts files →
          (Checked.through apply {} files).Clean → ({} : Drafts).accepted texts = files := by
  obtain ⟨-, rfl⟩ := finish_eq_ok_iff.mp finished
  exact ⟨mergedFrom_of_through distinct_of_accepted (through_accepted {} texts),
    fun _ read clean => accepted_of_clean read clean⟩

/-- One file declares an item type, and another extends it. -/
theorem mergedFrom_of_finished_sample :
    (({} : Drafts).applyTexts [Sample.baseText, Sample.derivedText]).finish = .ok Sample.schema ∧
      ∃ i j, declaredIn [Sample.baseContent, Sample.derivedContent] = [i] ∧
        Sample.schema.itemTypes = [j] ∧
          i.MergedFrom (extensionsIn [Sample.baseContent, Sample.derivedContent] i) j := by
  have finished : (({} : Drafts).applyTexts [Sample.baseText, Sample.derivedText]).finish =
      .ok Sample.schema := by
    rw [Sample.baseText, Sample.derivedText, applyTexts, applyTexts, applyTexts,
      applyText_of_read Sample.read_baseFile, applyText_of_read Sample.read_derivedFile,
      Sample.finish_contents]
  obtain ⟨merged, accepts⟩ := mergedFrom_of_finished finished
  have clean : (Checked.through apply {} [Sample.baseContent, Sample.derivedContent]).problems =
      [] := by decide +kernel
  rw [accepts _ (.cons Sample.read_baseFile (.cons Sample.read_derivedFile .nil)) clean] at merged
  obtain ⟨i, rest, made, others, declared⟩ := List.forall₂_cons_right_iff.mp merged
  cases others
  exact ⟨finished, i, _, declared, rfl, made⟩

end Drafts

end LearningStore.Schema
