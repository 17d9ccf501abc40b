import LearningStore.Proofs.Schema.Merging
import Mathlib.Data.List.Infix

/-!
# Files only add

Applying a file takes nothing back, whether or not it reports problems.  What was declared
before stays where it is, at the front of its list, and a file can do no more to it than put
members, grant expressions and documentation behind those that are there.  The one exception
is asked for by name: an extension can replace the indexes of its item type.
-/

namespace LearningStore.Schema

/-! ## Lists that grow -/

/-- Each member of the old list stands at its place in the new one, changed at most as `R`
allows, and more may follow. -/
inductive Continues {α : Type} (R : α → α → Prop) : List α → List α → Prop
  | done (more : List α) : Continues R [] more
  | keep {a b : α} {old new : List α} (kept : R a b) (rest : Continues R old new) :
      Continues R (a :: old) (b :: new)

namespace Continues

variable {α : Type} {R : α → α → Prop}

theorem append (refl : ∀ a, R a a) (old more : List α) : Continues R old (old ++ more) := by
  induction old with
  | nil => exact .done more
  | cons a rest ih => exact .keep (refl a) ih

theorem refl (refl : ∀ a, R a a) (l : List α) : Continues R l l := by
  simpa using append refl l []

theorem trans (trans : ∀ a b c, R a b → R b c → R a c) {xs ys zs : List α}
    (first : Continues R xs ys) (second : Continues R ys zs) : Continues R xs zs := by
  induction first generalizing zs with
  | done _ => exact .done zs
  | keep kept _ ih =>
      cases second with
      | keep again rest => exact .keep (trans _ _ _ kept again) (ih rest)

/-- Replacing the first member that satisfies a condition moves no other. -/
theorem updateFirst (refl : ∀ a, R a a) {p : α → Bool} {f : α → α} {l : List α}
    (changed : ∀ a ∈ l, p a = true → R a (f a)) : Continues R l (updateFirst p f l) := by
  induction l with
  | nil => exact .done []
  | cons a rest ih =>
      unfold Schema.updateFirst
      split
      next chosen =>
        exact .keep (changed a List.mem_cons_self chosen) (Continues.refl refl rest)
      next =>
        exact .keep (refl a) (ih fun b inside => changed b (List.mem_cons_of_mem a inside))

end Continues

/-! ## Documentation -/

/-- A text that is still there, with more behind it or not. -/
def TextGrown (old new : Option String) : Prop :=
  ∀ text, old = some text → ∃ more, new = some (text ++ more)

theorem TextGrown.refl (text : Option String) : TextGrown text text := by
  intro t present
  exact ⟨"", by rw [present, String.append_empty]⟩

theorem TextGrown.trans {a b c : Option String} (first : TextGrown a b)
    (second : TextGrown b c) : TextGrown a c := by
  intro text present
  obtain ⟨more, grown⟩ := first text present
  obtain ⟨others, result⟩ := second _ grown
  exact ⟨more ++ others, by rw [result, String.append_assoc]⟩

namespace Documentation

theorem textGrown_joinText (a b : Option String) : TextGrown a (joinText a b) := by
  intro text present
  subst present
  cases b with
  | none => exact ⟨"", by rw [joinText, String.append_empty]⟩
  | some more => exact ⟨more, rfl⟩

/-- Both texts are still there. -/
structure Grown (d e : Documentation) : Prop where
  summary : TextGrown d.summary e.summary
  remarks : TextGrown d.remarks e.remarks

theorem Grown.refl (d : Documentation) : d.Grown d :=
  ⟨.refl d.summary, .refl d.remarks⟩

theorem Grown.trans {d e f : Documentation} (first : d.Grown e) (second : e.Grown f) :
    d.Grown f :=
  ⟨first.summary.trans second.summary, first.remarks.trans second.remarks⟩

theorem grown_append (d extra : Documentation) : d.Grown (d.append extra) :=
  ⟨textGrown_joinText d.summary extra.summary, textGrown_joinText d.remarks extra.remarks⟩

end Documentation

/-! ## Members -/

/-- The same property, with more documentation or not. -/
structure Property.Grown (p q : Property) : Prop where
  same : q = { p with documentation := q.documentation }
  documentation : p.documentation.Grown q.documentation

theorem Property.Grown.refl (p : Property) : p.Grown p :=
  ⟨rfl, .refl p.documentation⟩

theorem Property.Grown.trans (p q r : Property) (first : p.Grown q) (second : q.Grown r) :
    p.Grown r := by
  refine ⟨?_, first.documentation.trans second.documentation⟩
  calc r = { q with documentation := r.documentation } := second.same
    _ = { p with documentation := r.documentation } := by rw [first.same]

/-- The same parameter, with more documentation or not. -/
structure Parameter.Grown (p q : Parameter) : Prop where
  same : q = { p with documentation := q.documentation }
  documentation : p.documentation.Grown q.documentation

theorem Parameter.Grown.refl (p : Parameter) : p.Grown p :=
  ⟨rfl, .refl p.documentation⟩

theorem Parameter.Grown.trans (p q r : Parameter) (first : p.Grown q) (second : q.Grown r) :
    p.Grown r := by
  refine ⟨?_, first.documentation.trans second.documentation⟩
  calc r = { q with documentation := r.documentation } := second.same
    _ = { p with documentation := r.documentation } := by rw [first.same]

/-! ## Item types -/

/-- The same item type with more members, grant expressions and documentation behind those
that were there.  Its indexes are left open. -/
structure ItemType.Grown (i j : ItemType) : Prop where
  name : j.name = i.name
  inBase : j.inBase = i.inBase
  properties : Continues Property.Grown i.properties j.properties
  expressions : ∀ right, i.expressions right <+: j.expressions right
  sqlAfter : i.sqlAfter <+: j.sqlAfter
  documentation : i.documentation.Grown j.documentation

namespace ItemType

theorem Grown.refl (i : ItemType) : i.Grown i :=
  ⟨rfl, rfl, .refl .refl i.properties, fun _ => List.prefix_rfl, List.prefix_rfl,
    .refl i.documentation⟩

theorem Grown.trans {i j k : ItemType} (first : i.Grown j) (second : j.Grown k) : i.Grown k where
  name := second.name.trans first.name
  inBase := second.inBase.trans first.inBase
  properties := first.properties.trans Property.Grown.trans second.properties
  expressions right := (first.expressions right).trans (second.expressions right)
  sqlAfter := first.sqlAfter.trans second.sqlAfter
  documentation := first.documentation.trans second.documentation

/-- The same item type, grown, with the indexes that it had. -/
def GrownBeside (i j : ItemType) : Prop :=
  i.Grown j ∧ j.indexes = i.indexes

theorem GrownBeside.trans {i j k : ItemType} (first : i.GrownBeside j)
    (second : j.GrownBeside k) : i.GrownBeside k :=
  ⟨first.1.trans second.1, second.2.trans first.2⟩

theorem expressions_grant (i : ItemType) (right other : ItemRight) (more : List String) :
    (i.grant right more).expressions other =
      i.expressions other ++ if right = other then more else [] := by
  cases right <;> cases other <;> simp [grant, expressions]

theorem grownBeside_grant (i : ItemType) (right : ItemRight) (more : List String) :
    i.GrownBeside (i.grant right more) := by
  have expressions (other : ItemRight) :
      i.expressions other <+: (i.grant right more).expressions other := by
    rw [expressions_grant]
    exact List.prefix_append _ _
  have kept := Grown.refl i
  cases right <;> exact ⟨{ kept with expressions := expressions }, rfl⟩

theorem grownBeside_grantAll (i : ItemType) (expressions : List (ItemRight × String)) :
    i.GrownBeside (i.grantAll expressions) := by
  induction expressions generalizing i with
  | nil => exact ⟨.refl i, rfl⟩
  | cons e rest ih =>
      rw [grantAll_cons]
      exact (i.grownBeside_grant e.1 [e.2]).trans (ih (i.grant e.1 [e.2]))

theorem grownBeside_addProperty (i : ItemType) (d : Declared Property) :
    i.GrownBeside (i.addProperty d).value := by
  unfold addProperty
  split
  next => exact ⟨.refl i, rfl⟩
  next =>
    have properties := Continues.append Property.Grown.refl i.properties [d.item]
    exact ⟨{ Grown.refl i with properties := properties }, rfl⟩

theorem grownBeside_extendProperty (i : ItemType) (m : MemberExtension) :
    i.GrownBeside (i.extendProperty m).value := by
  unfold extendProperty
  split
  next =>
    have properties : Continues Property.Grown i.properties
        (updateFirst (fun p => p.name == m.name) (fun p => p.extended m.documentation)
          i.properties) :=
      .updateFirst Property.Grown.refl fun p _ _ => ⟨rfl, p.documentation.grown_append _⟩
    exact ⟨{ Grown.refl i with properties := properties }, rfl⟩
  next => exact ⟨.refl i, rfl⟩

theorem value_addProperty {i : ItemType} {d : Declared Property} (clean : (i.addProperty d).Clean) :
    (i.addProperty d).value = { i with properties := i.properties ++ [d.item] } := by
  unfold addProperty at clean ⊢
  split at clean
  next => cases clean
  next fresh => rw [if_neg fresh, Checked.pure_eq, Checked.value_pure]

/-- Properties of which none is reported are put behind those that are there. -/
theorem value_through_addProperty {i : ItemType} {ds : List (Declared Property)}
    (clean : (Checked.through addProperty i ds).Clean) :
    (Checked.through addProperty i ds).value =
      { i with properties := i.properties ++ ds.map Declared.item } := by
  induction ds generalizing i with
  | nil =>
      rw [List.map_nil, List.append_nil]
      rfl
  | cons d rest ih =>
      obtain ⟨first, others⟩ := Checked.clean_bind.mp clean
      rw [Checked.through, Checked.bind_eq, Checked.value_bind, ih others, value_addProperty first,
        List.map_cons, ← List.append_cons]

/-- What an extension merges, it puts behind what is there.  It has the indexes replaced only
if it says so. -/
theorem grown_extend (i : ItemType) (x : ItemTypeExtension) :
    i.Grown (i.extend x).value ∧
      (x.replaceIndexes = false → i.indexes <+: (i.extend x).value.indexes) := by
  let documented := { i with documentation := i.documentation.append x.body.documentation }
  have start : i.GrownBeside documented :=
    ⟨{ Grown.refl i with documentation := i.documentation.grown_append _ }, rfl⟩
  have granted := start.trans (documented.grownBeside_grantAll x.body.expressions)
  have grown := Checked.through_preserves (P := i.GrownBeside) (f := addProperty)
    (l := x.body.properties) (fun j d _ kept => kept.trans (j.grownBeside_addProperty d)) granted
  obtain ⟨merged, indexes⟩ := Checked.through_preserves (P := i.GrownBeside)
    (f := extendProperty) (l := x.body.propertyExtensions)
    (fun j m _ kept => kept.trans (j.grownBeside_extendProperty m)) grown
  constructor
  · exact { merged with sqlAfter := merged.sqlAfter.trans (List.prefix_append _ _) }
  · intro keeps
    simp only [extend, Checked.value_bind, Checked.value_pure, keeps, Bool.false_eq_true,
      if_false]
    exact indexes.symm ▸ List.prefix_append _ _

end ItemType

/-! ## Views -/

/-- The same view with more grant expressions and documentation behind those that were
there. -/
structure View.Grown (v w : View) : Prop where
  name : w.name = v.name
  inBase : w.inBase = v.inBase
  columns : w.columns = v.columns
  parameters : w.parameters = v.parameters
  implementation : w.implementation = v.implementation
  expressions : v.expressions <+: w.expressions
  documentation : v.documentation.Grown w.documentation

namespace View

theorem Grown.refl (v : View) : v.Grown v :=
  ⟨rfl, rfl, rfl, rfl, rfl, List.prefix_rfl, .refl v.documentation⟩

theorem Grown.trans {u v w : View} (first : u.Grown v) (second : v.Grown w) : u.Grown w where
  name := second.name.trans first.name
  inBase := second.inBase.trans first.inBase
  columns := second.columns.trans first.columns
  parameters := second.parameters.trans first.parameters
  implementation := second.implementation.trans first.implementation
  expressions := first.expressions.trans second.expressions
  documentation := first.documentation.trans second.documentation

theorem grown_extend (v : View) (x : ViewExtension) : v.Grown (v.extend x) :=
  ⟨rfl, rfl, rfl, rfl, rfl, List.prefix_append _ _, v.documentation.grown_append _⟩

end View

/-! ## Rights -/

/-- The same right with more parameters, grant expressions and documentation behind those that
were there. -/
structure Right.Grown (r q : Right) : Prop where
  name : q.name = r.name
  inBase : q.inBase = r.inBase
  parameters : Continues Parameter.Grown r.parameters q.parameters
  expressions : r.expressions <+: q.expressions
  documentation : r.documentation.Grown q.documentation

namespace Right

theorem Grown.refl (r : Right) : r.Grown r :=
  ⟨rfl, rfl, .refl .refl r.parameters, List.prefix_rfl, .refl r.documentation⟩

theorem Grown.trans {r q t : Right} (first : r.Grown q) (second : q.Grown t) : r.Grown t where
  name := second.name.trans first.name
  inBase := second.inBase.trans first.inBase
  parameters := first.parameters.trans Parameter.Grown.trans second.parameters
  expressions := first.expressions.trans second.expressions
  documentation := first.documentation.trans second.documentation

theorem grown_addParameter (r : Right) (d : Declared Parameter) :
    r.Grown (r.addParameter d).value := by
  unfold addParameter
  split
  next => exact .refl r
  next =>
    have parameters := Continues.append Parameter.Grown.refl r.parameters [d.item]
    exact { Grown.refl r with parameters := parameters }

theorem grown_extendParameter (r : Right) (m : MemberExtension) :
    r.Grown (r.extendParameter m).value := by
  unfold extendParameter
  split
  next =>
    have parameters : Continues Parameter.Grown r.parameters
        (updateFirst (fun p => p.name == m.name) (fun p => p.extended m.documentation)
          r.parameters) :=
      .updateFirst Parameter.Grown.refl fun p _ _ => ⟨rfl, p.documentation.grown_append _⟩
    exact { Grown.refl r with parameters := parameters }
  next => exact .refl r

theorem value_addParameter {r : Right} {d : Declared Parameter} (clean : (r.addParameter d).Clean) :
    (r.addParameter d).value = { r with parameters := r.parameters ++ [d.item] } := by
  unfold addParameter at clean ⊢
  split at clean
  next => cases clean
  next fresh => rw [if_neg fresh, Checked.pure_eq, Checked.value_pure]

/-- Parameters of which none is reported are put behind those that are there. -/
theorem value_through_addParameter {r : Right} {ds : List (Declared Parameter)}
    (clean : (Checked.through addParameter r ds).Clean) :
    (Checked.through addParameter r ds).value =
      { r with parameters := r.parameters ++ ds.map Declared.item } := by
  induction ds generalizing r with
  | nil =>
      rw [List.map_nil, List.append_nil]
      rfl
  | cons d rest ih =>
      obtain ⟨first, others⟩ := Checked.clean_bind.mp clean
      rw [Checked.through, Checked.bind_eq, Checked.value_bind, ih others, value_addParameter first,
        List.map_cons, ← List.append_cons]

theorem grown_extend (r : Right) (x : RightExtension) : r.Grown (r.extend x).value := by
  have start : r.Grown (r.opened x) :=
    { Grown.refl r with
      expressions := List.prefix_append _ _
      documentation := r.documentation.grown_append _ }
  have grown := Checked.through_preserves (P := r.Grown) (f := addParameter)
    (l := x.parameters) (fun q d _ kept => kept.trans (q.grown_addParameter d)) start
  exact Checked.through_preserves (P := r.Grown) (f := extendParameter)
    (l := x.parameterExtensions) (fun q m _ kept => kept.trans (q.grown_extendParameter m)) grown

end Right

/-! ## What a file can do to an element -/

namespace SchemaFile

/-- An item type before and after a file.  Its indexes are still there unless an extension of
it replaces them, and where no extension names it nothing is changed. -/
structure GrowsItemType (f : SchemaFile) (i j : ItemType) : Prop where
  grown : i.Grown j
  indexes : (∀ x ∈ f.itemTypeExtensions, x.name = i.name → x.replaceIndexes = false) →
    i.indexes <+: j.indexes
  untouched : (∀ x ∈ f.itemTypeExtensions, x.name ≠ i.name) → j = i

/-- A view before and after a file. -/
structure GrowsView (f : SchemaFile) (v w : View) : Prop where
  grown : v.Grown w
  untouched : (∀ x ∈ f.viewExtensions, x.name ≠ v.name) → w = v

/-- A right before and after a file. -/
structure GrowsRight (f : SchemaFile) (r q : Right) : Prop where
  grown : r.Grown q
  untouched : (∀ x ∈ f.rightExtensions, x.name ≠ r.name) → q = r

variable {f : SchemaFile}

theorem GrowsItemType.refl (i : ItemType) : f.GrowsItemType i i :=
  ⟨.refl i, fun _ => List.prefix_rfl, fun _ => rfl⟩

theorem GrowsItemType.trans (i j k : ItemType) (first : f.GrowsItemType i j)
    (second : f.GrowsItemType j k) : f.GrowsItemType i k where
  grown := first.grown.trans second.grown
  indexes keeps := (first.indexes keeps).trans (second.indexes (first.grown.name ▸ keeps))
  untouched others :=
    (second.untouched (first.grown.name ▸ others)).trans (first.untouched others)

theorem GrowsView.refl (v : View) : f.GrowsView v v :=
  ⟨.refl v, fun _ => rfl⟩

theorem GrowsView.trans (u v w : View) (first : f.GrowsView u v) (second : f.GrowsView v w) :
    f.GrowsView u w where
  grown := first.grown.trans second.grown
  untouched others :=
    (second.untouched (first.grown.name ▸ others)).trans (first.untouched others)

theorem GrowsRight.refl (r : Right) : f.GrowsRight r r :=
  ⟨.refl r, fun _ => rfl⟩

theorem GrowsRight.trans (r q t : Right) (first : f.GrowsRight r q)
    (second : f.GrowsRight q t) : f.GrowsRight r t where
  grown := first.grown.trans second.grown
  untouched others :=
    (second.untouched (first.grown.name ▸ others)).trans (first.untouched others)

end SchemaFile

/-! ## Drafts -/

namespace Drafts

open SchemaFile

/-- Drafts before and after a file. -/
structure Grown (f : SchemaFile) (d e : Drafts) : Prop where
  enums : d.enums <+: e.enums
  itemTypes : Continues f.GrowsItemType d.itemTypes e.itemTypes
  views : Continues f.GrowsView d.views e.views
  rights : Continues f.GrowsRight d.rights e.rights
  sqlBefore : d.sqlBefore <+: e.sqlBefore
  sqlAfter : d.sqlAfter <+: e.sqlAfter
  names : d.names <+: e.names

variable {f : SchemaFile}

theorem Grown.refl (d : Drafts) : Grown f d d where
  enums := List.prefix_rfl
  itemTypes := .refl GrowsItemType.refl d.itemTypes
  views := .refl GrowsView.refl d.views
  rights := .refl GrowsRight.refl d.rights
  sqlBefore := List.prefix_rfl
  sqlAfter := List.prefix_rfl
  names := List.prefix_rfl

theorem Grown.trans {d e g : Drafts} (first : Grown f d e) (second : Grown f e g) :
    Grown f d g where
  enums := first.enums.trans second.enums
  itemTypes := first.itemTypes.trans GrowsItemType.trans second.itemTypes
  views := first.views.trans GrowsView.trans second.views
  rights := first.rights.trans GrowsRight.trans second.rights
  sqlBefore := first.sqlBefore.trans second.sqlBefore
  sqlAfter := first.sqlAfter.trans second.sqlAfter
  names := first.names.trans second.names

variable (d : Drafts)

theorem grown_addEnum (x : Declared EnumType) : Grown f d (d.addEnum x).value := by
  unfold addEnum register
  split
  next => exact .refl d
  next =>
    exact { Grown.refl d with enums := List.prefix_append _ _, names := List.prefix_append _ _ }

theorem grown_addItemType (x : Declared ItemType) : Grown f d (d.addItemType x).value := by
  unfold addItemType register
  split
  next => exact .refl d
  next =>
    have itemTypes := Continues.append (GrowsItemType.refl (f := f)) d.itemTypes [x.item]
    exact { Grown.refl d with itemTypes := itemTypes, names := List.prefix_append _ _ }

theorem grown_addView (x : Declared View) : Grown f d (d.addView x).value := by
  unfold addView register
  split
  next => exact .refl d
  next =>
    have views := Continues.append (GrowsView.refl (f := f)) d.views [x.item]
    exact { Grown.refl d with views := views, names := List.prefix_append _ _ }

theorem grown_addRight (x : Declared Right) : Grown f d (d.addRight x).value := by
  unfold addRight register
  split
  next => exact .refl d
  next =>
    have rights := Continues.append (GrowsRight.refl (f := f)) d.rights [x.item]
    exact { Grown.refl d with rights := rights, names := List.prefix_append _ _ }

/-- An extension of the file changes the item type that it names and no other. -/
theorem grown_extendItemType {x : ItemTypeExtension} (listed : x ∈ f.itemTypeExtensions) :
    Grown f d (d.extendItemType x).value := by
  unfold extendItemType
  split
  next => exact .refl d
  next i found =>
    have grows (j : ItemType) (named : j.name = x.name) :
        f.GrowsItemType j (j.extend x).value := by
      obtain ⟨grown, indexes⟩ := j.grown_extend x
      exact ⟨grown, fun keeps => indexes (keeps x listed named.symm),
        fun others => absurd named.symm (others x listed)⟩
    have itemTypes : Continues f.GrowsItemType d.itemTypes
        (updateFirst (fun j => j.name == x.name) (fun j => (j.extend x).value) d.itemTypes) :=
      .updateFirst GrowsItemType.refl fun j _ chosen => grows j (beq_iff_eq.mp chosen)
    rw [← updateFirst_of_find? found] at itemTypes
    exact { Grown.refl d with itemTypes := itemTypes }

theorem grown_extendView {x : ViewExtension} (listed : x ∈ f.viewExtensions) :
    Grown f d (d.extendView x).value := by
  unfold extendView
  split
  next =>
    have views : Continues f.GrowsView d.views
        (updateFirst (fun v => v.name == x.name) (fun v => v.extend x) d.views) := by
      refine .updateFirst GrowsView.refl fun v _ chosen => ⟨v.grown_extend x, fun others => ?_⟩
      exact absurd (beq_iff_eq.mp chosen).symm (others x listed)
    exact { Grown.refl d with views := views }
  next => exact .refl d

theorem grown_extendRight {x : RightExtension} (listed : x ∈ f.rightExtensions) :
    Grown f d (d.extendRight x).value := by
  unfold extendRight
  split
  next => exact .refl d
  next r found =>
    have rights : Continues f.GrowsRight d.rights
        (updateFirst (fun q => q.name == x.name) (fun q => (q.extend x).value) d.rights) := by
      refine .updateFirst GrowsRight.refl fun q _ chosen => ⟨q.grown_extend x, fun others => ?_⟩
      exact absurd (beq_iff_eq.mp chosen).symm (others x listed)
    rw [← updateFirst_of_find? found] at rights
    exact { Grown.refl d with rights := rights }

/-- Whatever drafts a file is applied to, and whether or not it reports problems, it only adds
to them. -/
theorem grown_apply (file : SchemaFile) : Grown file d (d.apply file).value := by
  simp only [Drafts.apply, Checked.value_bind, Checked.value_pure]
  have enums := Checked.through_preserves (P := Grown file d) (f := addEnum) (l := file.enums)
    (fun e x _ kept => kept.trans (e.grown_addEnum x)) (.refl d)
  have itemTypes := Checked.through_preserves (P := Grown file d) (f := addItemType)
    (l := file.itemTypes) (fun e x _ kept => kept.trans (e.grown_addItemType x)) enums
  have views := Checked.through_preserves (P := Grown file d) (f := addView)
    (l := file.views) (fun e x _ kept => kept.trans (e.grown_addView x)) itemTypes
  have rights := Checked.through_preserves (P := Grown file d) (f := addRight)
    (l := file.rights) (fun e x _ kept => kept.trans (e.grown_addRight x)) views
  have itemTypesExtended := Checked.through_preserves (P := Grown file d) (f := extendItemType)
    (fun e x listed kept => kept.trans (e.grown_extendItemType listed)) rights
  have viewsExtended := Checked.through_preserves (P := Grown file d) (f := extendView)
    (fun e x listed kept => kept.trans (e.grown_extendView listed)) itemTypesExtended
  have rightsExtended := Checked.through_preserves (P := Grown file d) (f := extendRight)
    (fun e x listed kept => kept.trans (e.grown_extendRight listed)) viewsExtended
  exact { rightsExtended with
    sqlBefore := rightsExtended.sqlBefore.trans (List.prefix_append _ _)
    sqlAfter := rightsExtended.sqlAfter.trans (List.prefix_append _ _) }

end Drafts

end LearningStore.Schema
