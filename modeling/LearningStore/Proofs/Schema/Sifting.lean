import LearningStore.Proofs.Schema.Splitting

/-!
# What is left of a file without its problems

Applying a file goes on after a problem.  Every problem is about one part of the file: a
declaration under a name that is taken, an extension of nothing, a member that an extension adds
where there is one of that name, or documentation for a member that does not exist.  A file is
sifted by removing these parts, each judged in the state that the drafts are in at its turn.  What
is left is applied without problems and makes the same drafts, so that a part that is reported
leaves no trace in anything that is merged after it.
-/

namespace LearningStore.Schema

/-! ## Parts of a file -/

/-- A part of a file that can be refused by itself.  The members of an extension come with the
name of the element that is extended. -/
inductive Part where
  | enum (x : Declared EnumType)
  | itemType (x : Declared ItemType)
  | view (x : Declared View)
  | right (x : Declared Right)
  | itemTypeExtension (x : ItemTypeExtension)
  | viewExtension (x : ViewExtension)
  | rightExtension (x : RightExtension)
  | property (owner : String) (x : Declared Property)
  | propertyExtension (owner : String) (x : MemberExtension)
  | parameter (owner : String) (x : Declared Parameter)
  | parameterExtension (owner : String) (x : MemberExtension)
deriving DecidableEq, Repr

namespace Part

def location : Part → Location
  | enum x => x.location
  | itemType x => x.location
  | view x => x.location
  | right x => x.location
  | itemTypeExtension x => x.location
  | viewExtension x => x.location
  | rightExtension x => x.location
  | property _ x => x.location
  | propertyExtension _ x => x.location
  | parameter _ x => x.location
  | parameterExtension _ x => x.location

/-- Why a part is refused.  A declaration is refused because of another one, at a place before
it. -/
def cause (previous : Location) : Part → Cause
  | enum x => .nameTaken x.item.name previous
  | itemType x => .nameTaken x.item.name previous
  | view x => .nameTaken x.item.name previous
  | right x => .nameTaken x.item.name previous
  | itemTypeExtension x => .noItemTypeToExtend x.name
  | viewExtension x => .noViewToExtend x.name
  | rightExtension x => .noRightToExtend x.name
  | property owner x => .propertyTaken owner x.item.name
  | propertyExtension owner x => .noPropertyToExtend owner x.name
  | parameter owner x => .parameterTaken owner x.item.name
  | parameterExtension owner x => .noParameterToExtend x.name owner

/-- A problem is about a part: it gives its place, and says why it is refused. -/
def Reported (part : Part) (p : Problem) : Prop :=
  ∃ previous, p = ⟨some part.location, part.cause previous⟩

end Part

/-! ## Sifting a list -/

/-- What is left of something, and what was removed from it. -/
structure Sifted (α : Type) where
  kept : α
  removed : List Part
deriving DecidableEq, Repr

section Sifting

variable {α β : Type}

namespace Sifted

/-- Keep a member of a list as it is, or remove it as one part. -/
def refusing (refused : β → α → Bool) (part : β → α → Part) (b : β) (a : α) :
    Sifted (Option α) :=
  if refused b a then ⟨none, [part b a]⟩ else ⟨some a, []⟩

/-- Judge the members of a list in order, each in the state that the steps before it have
reached. -/
def all (judge : β → α → Sifted (Option α)) (step : β → α → Checked β) (b : β) :
    List α → Sifted (List α)
  | [] => ⟨[], []⟩
  | a :: rest =>
      let first := judge b a
      let others := all judge step (step b a).value rest
      ⟨first.kept.toList ++ others.kept, first.removed ++ others.removed⟩

end Sifted

/-- Where members are kept as they are or removed, those that are kept are in order. -/
theorem Sifted.sublist_all_refusing {refused : β → α → Bool} {part : β → α → Part}
    {step : β → α → Checked β} (b : β) (l : List α) :
    (Sifted.all (Sifted.refusing refused part) step b l).kept.Sublist l := by
  induction l generalizing b with
  | nil => exact .slnil
  | cons a rest ih =>
      have first : (Sifted.refusing refused part b a).kept.toList.Sublist [a] := by
        unfold refusing
        split
        next => exact List.nil_sublist [a]
        next => exact .refl [a]
      exact first.append (ih (step b a).value)

/-- Members are judged as the steps of a pass treat them.  What is removed of one is what its
step reports, and with what is left of it the step reports nothing and comes to the same
state. -/
structure Judges (judge : β → α → Sifted (Option α)) (step : β → α → Checked β) : Prop where
  reported : ∀ b a, List.Forall₂ Part.Reported (judge b a).removed (step b a).problems
  passed : ∀ b a, Checked.through step b (judge b a).kept.toList = .pure (step b a).value
  whole : ∀ b a, (judge b a).removed = [] → (judge b a).kept = some a

namespace Judges

variable {judge : β → α → Sifted (Option α)} {step : β → α → Checked β}

/-- Where a step refuses a member as one part and changes nothing, or takes it as it is, it is
enough to know which. -/
theorem of_refusal {refused : β → α → Bool} {part : β → α → Part}
    (refuses : ∀ b a, refused b a = true → ∃ p, step b a = ⟨b, [p]⟩ ∧ (part b a).Reported p)
    (takes : ∀ b a, refused b a = false → (step b a).Clean) :
    Judges (Sifted.refusing refused part) step := by
  constructor
  all_goals
    intro b a
    cases taken : refused b a
    all_goals rw [Sifted.refusing, taken]
  case reported.true =>
    obtain ⟨p, stays, reported⟩ := refuses b a taken
    rw [stays]
    exact .cons reported .nil
  case reported.false =>
    rw [show (step b a).problems = [] from takes b a taken]
    exact .nil
  case passed.true =>
    obtain ⟨p, stays, -⟩ := refuses b a taken
    rw [stays]
    rfl
  case passed.false =>
    exact (Checked.through_singleton step b a).trans (Checked.eq_pure_of_clean (takes b a taken))
  case whole.true => exact nofun
  case whole.false => exact fun _ => rfl

variable (h : Judges judge step)

include h

theorem reported_all (b : β) (l : List α) :
    List.Forall₂ Part.Reported (Sifted.all judge step b l).removed
      (Checked.through step b l).problems := by
  induction l generalizing b with
  | nil => exact .nil
  | cons a rest ih => exact List.rel_append (h.reported b a) (ih (step b a).value)

theorem passed_all (b : β) (l : List α) :
    Checked.through step b (Sifted.all judge step b l).kept =
      .pure (Checked.through step b l).value := by
  induction l generalizing b with
  | nil => rfl
  | cons a rest ih =>
      exact (Checked.through_append_of_pure (h.passed b a) _).trans (ih (step b a).value)

theorem whole_all {b : β} {l : List α} (none_removed : (Sifted.all judge step b l).removed = []) :
    (Sifted.all judge step b l).kept = l := by
  induction l generalizing b with
  | nil => rfl
  | cons a rest ih =>
      obtain ⟨first, others⟩ := List.append_eq_nil_iff.mp none_removed
      exact congr (congrArg _ (congrArg Option.toList (h.whole b a first))) (ih others)

end Judges

end Sifting

/-! ## Extensions of item types -/

namespace ItemType

def judgeProperty : ItemType → Declared Property → Sifted (Option (Declared Property)) :=
  Sifted.refusing (fun i x => (i.property? x.item.name).isSome) fun i x => .property i.name x

def judgePropertyExtension : ItemType → MemberExtension → Sifted (Option MemberExtension) :=
  Sifted.refusing (fun i x => (i.property? x.name).isNone) fun i x => .propertyExtension i.name x

/-- An extension of the item type, without the members that are refused. -/
def sift (i : ItemType) (x : ItemTypeExtension) : Sifted ItemTypeExtension :=
  let added := (Checked.through addProperty (i.opened x) x.body.properties).value
  let properties := Sifted.all judgeProperty addProperty (i.opened x) x.body.properties
  let extensions := Sifted.all judgePropertyExtension extendProperty added
    x.body.propertyExtensions
  ⟨{ x with body := { x.body with
      properties := properties.kept, propertyExtensions := extensions.kept } },
    properties.removed ++ extensions.removed⟩

theorem judges_addProperty : Judges judgeProperty addProperty := by
  apply Judges.of_refusal
  · intro i x taken
    exact ⟨_, if_pos taken, x.location, rfl⟩
  · intro i x free
    rw [addProperty, if_neg (Bool.eq_false_iff.mp free)]
    rfl

theorem judges_extendProperty : Judges judgePropertyExtension extendProperty := by
  apply Judges.of_refusal
  · intro i x missing
    exact ⟨_, if_neg (by simpa using missing), x.location, rfl⟩
  · intro i x found
    rw [extendProperty, if_pos (by simpa [Option.isSome_iff_ne_none] using found)]
    rfl

theorem reported_sift (i : ItemType) (x : ItemTypeExtension) :
    List.Forall₂ Part.Reported (i.sift x).removed (i.extend x).problems := by
  have properties := judges_addProperty.reported_all (i.opened x) x.body.properties
  have extensions := judges_extendProperty.reported_all
    (Checked.through addProperty (i.opened x) x.body.properties).value x.body.propertyExtensions
  have both := List.rel_append properties extensions
  rwa [← List.append_nil (Checked.through extendProperty _ _).problems] at both

theorem extend_sift (i : ItemType) (x : ItemTypeExtension) :
    i.extend (i.sift x).kept = .pure (i.extend x).value := by
  have properties : Checked.through addProperty (i.opened (i.sift x).kept)
      (i.sift x).kept.body.properties = _ :=
    judges_addProperty.passed_all (i.opened x) x.body.properties
  have extensions : Checked.through extendProperty _ (i.sift x).kept.body.propertyExtensions = _ :=
    judges_extendProperty.passed_all
      (Checked.through addProperty (i.opened x) x.body.properties).value x.body.propertyExtensions
  rw [extend_eq, properties]
  exact congrArg (· >>= fun j => .pure (j.closed x)) extensions

/-- An extension of which no part is refused stays as it is. -/
theorem kept_sift {i : ItemType} {x : ItemTypeExtension} (whole : (i.sift x).removed = []) :
    (i.sift x).kept = x := by
  obtain ⟨properties, extensions⟩ := List.append_eq_nil_iff.mp whole
  rw [sift, judges_addProperty.whole_all properties, judges_extendProperty.whole_all extensions]

end ItemType

/-! ## Extensions of rights -/

namespace Right

def judgeParameter : Right → Declared Parameter → Sifted (Option (Declared Parameter)) :=
  Sifted.refusing (fun r x => (r.parameter? x.item.name).isSome) fun r x => .parameter r.name x

def judgeParameterExtension : Right → MemberExtension → Sifted (Option MemberExtension) :=
  Sifted.refusing (fun r x => (r.parameter? x.name).isNone) fun r x => .parameterExtension r.name x

/-- An extension of the right, without the members that are refused. -/
def sift (r : Right) (x : RightExtension) : Sifted RightExtension :=
  let added := (Checked.through addParameter (r.opened x) x.parameters).value
  let parameters := Sifted.all judgeParameter addParameter (r.opened x) x.parameters
  let extensions := Sifted.all judgeParameterExtension extendParameter added x.parameterExtensions
  ⟨{ x with parameters := parameters.kept, parameterExtensions := extensions.kept },
    parameters.removed ++ extensions.removed⟩

theorem judges_addParameter : Judges judgeParameter addParameter := by
  apply Judges.of_refusal
  · intro r x taken
    exact ⟨_, if_pos taken, x.location, rfl⟩
  · intro r x free
    rw [addParameter, if_neg (Bool.eq_false_iff.mp free)]
    rfl

theorem judges_extendParameter : Judges judgeParameterExtension extendParameter := by
  apply Judges.of_refusal
  · intro r x missing
    exact ⟨_, if_neg (by simpa using missing), x.location, rfl⟩
  · intro r x found
    rw [extendParameter, if_pos (by simpa [Option.isSome_iff_ne_none] using found)]
    rfl

theorem reported_sift (r : Right) (x : RightExtension) :
    List.Forall₂ Part.Reported (r.sift x).removed (r.extend x).problems :=
  List.rel_append (judges_addParameter.reported_all (r.opened x) x.parameters)
    (judges_extendParameter.reported_all _ x.parameterExtensions)

theorem extend_sift (r : Right) (x : RightExtension) :
    r.extend (r.sift x).kept = .pure (r.extend x).value := by
  have parameters : Checked.through addParameter (r.opened (r.sift x).kept)
      (r.sift x).kept.parameters = _ :=
    judges_addParameter.passed_all (r.opened x) x.parameters
  rw [extend_eq, parameters]
  exact judges_extendParameter.passed_all
    (Checked.through addParameter (r.opened x) x.parameters).value x.parameterExtensions

theorem kept_sift {r : Right} {x : RightExtension} (whole : (r.sift x).removed = []) :
    (r.sift x).kept = x := by
  obtain ⟨parameters, extensions⟩ := List.append_eq_nil_iff.mp whole
  rw [sift, judges_addParameter.whole_all parameters, judges_extendParameter.whole_all extensions]

end Right

/-! ## Declarations and extensions of drafts -/

section Steps

variable {α ξ : Type}

/-- A declaration is refused where its name is taken. -/
def ElementKind.judge (k : ElementKind α) (part : Declared α → Part) :
    Drafts → Declared α → Sifted (Option (Declared α)) :=
  Sifted.refusing (fun d x => (d.user? (k.nameOf x.item)).isSome) fun _ x => part x

theorem ElementKind.judges_enter {k : ElementKind α} {part : Declared α → Part}
    (located : ∀ x, (part x).location = x.location)
    (caused : ∀ x previous, (part x).cause previous = .nameTaken (k.nameOf x.item) previous) :
    Judges (k.judge part) k.enter := by
  apply Judges.of_refusal
  · intro d x taken
    obtain ⟨previous, found⟩ := Option.isSome_iff_exists.mp taken
    refine ⟨⟨some x.location, .nameTaken (k.nameOf x.item) previous⟩, ?_, previous, ?_⟩
    · rw [enter, Drafts.register, found]
    · rw [located, caused]
  · intro d x free
    have unused : d.user? (k.nameOf x.item) = none := by simpa using free
    rw [enter, Drafts.register, unused]
    rfl

/-- An extension is refused where nothing has the name that it extends, and sifted by what has it
otherwise. -/
def Merge.judge (m : Merge α ξ) (part : ξ → Part) (sift : α → ξ → Sifted ξ) (l : List α) (x : ξ) :
    Sifted (Option ξ) :=
  match l.find? fun a => m.nameOf a == m.target x with
  | none => ⟨none, [part x]⟩
  | some a => ⟨some (sift a x).kept, (sift a x).removed⟩

/-- What an element removes of an extension is what merging it reports, and with what is left of it
nothing is reported and the element becomes the same. -/
structure Merge.Sifts (m : Merge α ξ) (part : ξ → Part) (sift : α → ξ → Sifted ξ) : Prop where
  missing : ∀ x, (part x).Reported (m.missing x)
  target : ∀ a x, m.target (sift a x).kept = m.target x
  reported : ∀ a x, List.Forall₂ Part.Reported (sift a x).removed (m.extend a x).problems
  passed : ∀ a x, m.extend a (sift a x).kept = .pure (m.extend a x).value
  whole : ∀ a x, (sift a x).removed = [] → (sift a x).kept = x

theorem Merge.Sifts.judges {m : Merge α ξ} {part : ξ → Part} {sift : α → ξ → Sifted ξ}
    (h : m.Sifts part sift) : Judges (m.judge part sift) m.into := by
  constructor
  all_goals
    intro l x
    cases found : l.find? fun a => m.nameOf a == m.target x
    all_goals rw [judge, found]
  case reported.none =>
    rw [into_of_none found]
    exact .cons (h.missing x) .nil
  case reported.some a =>
    rw [into_of_some found]
    exact h.reported a x
  case passed.none =>
    rw [into_of_none found]
    rfl
  case passed.some a =>
    have again : (l.find? fun b => m.nameOf b == m.target (sift a x).kept) = some a := by
      rw [h.target, found]
    rw [into_of_some found, Option.toList_some, Checked.through_singleton, into_of_some again,
      h.passed, h.target]
    rfl
  case whole.none => exact nofun
  case whole.some a => exact fun whole => congrArg some (h.whole a x whole)

/-- What judges a step on the elements of a kind judges the step on drafts. -/
theorem Judges.lift {k : ElementKind α} {step : Drafts → ξ → Checked Drafts}
    {on : List α → ξ → Checked (List α)} {judge : List α → ξ → Sifted (Option ξ)}
    (h : Judges judge on) (lifts : k.Lifts step on) : Judges (fun d => judge (k.get d)) step where
  reported d x := by
    rw [lifts d x]
    exact h.reported (k.get d) x
  passed d x := by
    rw [lifts.through, h.passed, lifts d x]
    rfl
  whole d := h.whole (k.get d)

end Steps

theorem sifts_itemTypeMerge : itemTypeMerge.Sifts .itemTypeExtension ItemType.sift where
  missing x := ⟨x.location, rfl⟩
  target _ _ := rfl
  reported := ItemType.reported_sift
  passed := ItemType.extend_sift
  whole _ _ := ItemType.kept_sift

/-- Nothing within an extension of a view can be refused. -/
theorem sifts_viewMerge : viewMerge.Sifts .viewExtension fun _ x => ⟨x, []⟩ where
  missing x := ⟨x.location, rfl⟩
  target _ _ := rfl
  reported _ _ := .nil
  passed _ _ := rfl
  whole _ _ _ := rfl

theorem sifts_rightMerge : rightMerge.Sifts .rightExtension Right.sift where
  missing x := ⟨x.location, rfl⟩
  target _ _ := rfl
  reported := Right.reported_sift
  passed := Right.extend_sift
  whole _ _ := Right.kept_sift

namespace Drafts

theorem judges_addEnum : Judges (enumKind.judge .enum) addEnum :=
  ElementKind.judges_enter (fun _ => rfl) fun _ _ => rfl

theorem judges_addItemType : Judges (itemTypeKind.judge .itemType) addItemType :=
  ElementKind.judges_enter (fun _ => rfl) fun _ _ => rfl

theorem judges_addView : Judges (viewKind.judge .view) addView :=
  ElementKind.judges_enter (fun _ => rfl) fun _ _ => rfl

theorem judges_addRight : Judges (rightKind.judge .right) addRight :=
  ElementKind.judges_enter (fun _ => rfl) fun _ _ => rfl

def judgeItemTypeExtension (d : Drafts) : ItemTypeExtension → Sifted (Option ItemTypeExtension) :=
  itemTypeMerge.judge .itemTypeExtension ItemType.sift d.itemTypes

def judgeViewExtension (d : Drafts) : ViewExtension → Sifted (Option ViewExtension) :=
  viewMerge.judge .viewExtension (fun _ x => ⟨x, []⟩) d.views

def judgeRightExtension (d : Drafts) : RightExtension → Sifted (Option RightExtension) :=
  rightMerge.judge .rightExtension Right.sift d.rights

theorem judges_extendItemType : Judges judgeItemTypeExtension extendItemType :=
  sifts_itemTypeMerge.judges.lift lifts_extendItemType

theorem judges_extendView : Judges judgeViewExtension extendView :=
  sifts_viewMerge.judges.lift lifts_extendView

theorem judges_extendRight : Judges judgeRightExtension extendRight :=
  sifts_rightMerge.judges.lift lifts_extendRight

/-! ## Files -/

/-- A file without the parts that are refused, each judged at its turn. -/
def sift (d : Drafts) (f : SchemaFile) : Sifted SchemaFile :=
  let enums := Sifted.all (enumKind.judge .enum) addEnum d f.enums
  let d := (Checked.through addEnum d f.enums).value
  let itemTypes := Sifted.all (itemTypeKind.judge .itemType) addItemType d f.itemTypes
  let d := (Checked.through addItemType d f.itemTypes).value
  let views := Sifted.all (viewKind.judge .view) addView d f.views
  let d := (Checked.through addView d f.views).value
  let rights := Sifted.all (rightKind.judge .right) addRight d f.rights
  let d := (Checked.through addRight d f.rights).value
  let itemTypeExtensions :=
    Sifted.all judgeItemTypeExtension extendItemType d f.itemTypeExtensions
  let d := (Checked.through extendItemType d f.itemTypeExtensions).value
  let viewExtensions := Sifted.all judgeViewExtension extendView d f.viewExtensions
  let d := (Checked.through extendView d f.viewExtensions).value
  let rightExtensions := Sifted.all judgeRightExtension extendRight d f.rightExtensions
  ⟨{ f with
      enums := enums.kept
      itemTypes := itemTypes.kept
      views := views.kept
      rights := rights.kept
      itemTypeExtensions := itemTypeExtensions.kept
      viewExtensions := viewExtensions.kept
      rightExtensions := rightExtensions.kept },
    enums.removed ++ (itemTypes.removed ++ (views.removed ++ (rights.removed ++
      (itemTypeExtensions.removed ++ (viewExtensions.removed ++ rightExtensions.removed)))))⟩

variable (d : Drafts) (f : SchemaFile)

theorem reported_sift : List.Forall₂ Part.Reported (d.sift f).removed (d.apply f).problems := by
  have passes : List.Forall₂ Part.Reported _ (d.apply f).problems :=
    List.rel_append (judges_addEnum.reported_all _ _) <|
    List.rel_append (judges_addItemType.reported_all _ _) <|
    List.rel_append (judges_addView.reported_all _ _) <|
    List.rel_append (judges_addRight.reported_all _ _) <|
    List.rel_append (judges_extendItemType.reported_all _ _) <|
    List.rel_append (judges_extendView.reported_all _ _) <|
    List.rel_append (judges_extendRight.reported_all _ _) .nil
  simp only [List.append_nil] at passes
  exact passes

theorem apply_sift : d.apply (d.sift f).kept = .pure (d.apply f).value :=
  (Checked.bind_of_pure (judges_addEnum.passed_all _ _)).trans <|
  (Checked.bind_of_pure (judges_addItemType.passed_all _ _)).trans <|
  (Checked.bind_of_pure (judges_addView.passed_all _ _)).trans <|
  (Checked.bind_of_pure (judges_addRight.passed_all _ _)).trans <|
  (Checked.bind_of_pure (judges_extendItemType.passed_all _ _)).trans <|
  (Checked.bind_of_pure (judges_extendView.passed_all _ _)).trans <|
  (Checked.bind_of_pure (judges_extendRight.passed_all _ _))

/-- Where nothing is reported, nothing is removed. -/
theorem kept_sift {d : Drafts} {f : SchemaFile} (clean : (d.apply f).Clean) :
    (d.sift f).kept = f := by
  have none_removed : (d.sift f).removed = [] := by
    have reported := d.reported_sift f
    rw [show (d.apply f).problems = [] from clean] at reported
    exact List.forall₂_nil_right_iff.mp reported
  simp only [sift, List.append_eq_nil_iff] at none_removed
  obtain ⟨enums, itemTypes, views, rights, itemTypeExtensions, viewExtensions, rightExtensions⟩ :=
    none_removed
  simp only [sift, judges_addEnum.whole_all enums, judges_addItemType.whole_all itemTypes,
    judges_addView.whole_all views, judges_addRight.whole_all rights,
    judges_extendItemType.whole_all itemTypeExtensions,
    judges_extendView.whole_all viewExtensions, judges_extendRight.whole_all rightExtensions]

/-- However many problems a file has, and whatever the drafts are that it is applied to: the parts
that are removed from it are reported one by one, in order and each for what it is, and nothing
else is; and what is left of it is applied without problems and makes the same drafts, with the
same registry of names. -/
theorem apply_undisturbed : List.Forall₂ Part.Reported (d.sift f).removed (d.apply f).problems ∧
    (d.apply f).problems.length = (d.sift f).removed.length ∧
      d.apply (d.sift f).kept = .pure (d.apply f).value := by
  have reported := d.reported_sift f
  exact ⟨reported, reported.length_eq.symm, d.apply_sift f⟩

end Drafts

namespace Sample

/-- A file with a name that is taken but for its case, an extension of an item type that holds a
property that is there and documentation for one that is not, and an extension of nothing. -/
def clashingFile : SchemaFile :=
  { SchemaFile.empty "clash.xml" with
    views := [⟨⟨"MOOD", [], [], "SELECT 1", [], {}, false⟩, ⟨"clash.xml", 1, 1⟩⟩]
    itemTypeExtensions :=
      [⟨"Pet", ⟨"clash.xml", 2, 1⟩, false,
          ⟨{}, [], [⟨moodProperty, ⟨"clash.xml", 3, 1⟩⟩, ⟨motherProperty, ⟨"clash.xml", 4, 1⟩⟩],
            [⟨"Mother", ⟨"clash.xml", 5, 1⟩, {}⟩, ⟨"Size", ⟨"clash.xml", 6, 1⟩, {}⟩], [], []⟩⟩,
        ⟨"Dog", ⟨"clash.xml", 7, 1⟩, false, ⟨{}, [], [], [], [], []⟩⟩] }

example : ((({} : Drafts).apply baseContent).value.sift clashingFile).removed.map Part.location =
    [⟨"clash.xml", 1, 1⟩, ⟨"clash.xml", 3, 1⟩, ⟨"clash.xml", 6, 1⟩, ⟨"clash.xml", 7, 1⟩] := by
  decide +kernel

end Sample

end LearningStore.Schema
