import LearningStore.Proofs.Schema.Grammar
import LearningStore.Proofs.Schema.Validity
import Mathlib.Data.List.Forall2

/-!
# Accepted files are read in full

Reading picks children by their local names, takes the first one of a kind that may come
once, and leaves out what it cannot read.  In a clean pass nothing is left out: the lists of
a file have one entry for each element, in document order, with the name, the place and the
text of that element.
-/

namespace LearningStore.Xml.Element

/-- The elements of one name inside the children of another name, in document order. -/
def within (e : Element) (outer inner : String) : List Element :=
  (e.named outer).flatMap fun o => o.named inner

end LearningStore.Xml.Element

namespace LearningStore.Schema

open LearningStore.Text
open LearningStore.Value
open LearningStore.Xml

/-! ## Entries -/

/-- Documentation of an element: one text for each element of markup. -/
structure Documentation.From (s : Source) (e : Element) (d : Documentation) : Prop where
  summary : d.summary.toList = (e.within "Documentation" "Summary").map s.document.inner
  remarks : d.remarks.toList = (e.within "Documentation" "Remarks").map s.document.inner

structure EnumValue.From (s : Source) (e : Element) (v : EnumValue) : Prop where
  name : e.attribute? "Name" = some v.name
  value : ((e.attribute? "Value").bind fun text => Integer.read? (trim text.toList)) =
    some v.value
  documentation : v.documentation.toList = (e.named "Documentation").map s.document.inner

structure Member.From (s : Source) (e : Element) (m : Member) : Prop where
  name : e.attribute? "Name" = some m.name
  type : (e.attribute? "Type").bind ValueType.ofSchemaName? = some m.valueType
  itemTypeName : m.itemTypeName = e.attribute? "ReferencedItemTypeName"
  enumName : m.enumName = e.attribute? "EnumName"
  documentation : m.documentation.From s e

structure Property.From (s : Source) (e : Element) (p : Property) : Prop where
  member : p.toMember.From s e
  default : p.default.isSome = (e.first? "Default").isSome
  constraints : p.constraints = (e.within "Constraints" "Constraint").map Element.text

def Column.From (s : Source) (e : Element) (c : Column) : Prop :=
  c.toMember.From s e

def Parameter.From (s : Source) (e : Element) (p : Parameter) : Prop :=
  p.toMember.From s e

structure MemberExtension.From (s : Source) (e : Element) (x : MemberExtension) : Prop where
  name : e.attribute? "Name" = some x.name
  location : x.location = s.location e
  documentation : x.documentation.From s e

/-- A declaration of an element, where the element stands. -/
structure Declared.From {α : Type} (item : Source → Element → α → Prop) (s : Source)
    (e : Element) (d : Declared α) : Prop where
  item : item s e d.item
  location : d.location = s.location e

structure EnumType.From (s : Source) (e : Element) (t : EnumType) : Prop where
  name : e.attribute? "Name" = some t.name
  values : List.Forall₂ (EnumValue.From s) (e.within "Values" "Value") t.values
  documentation : t.documentation.From s e

/-- What an item type, or an extension of one, holds of its element. -/
structure ItemTypeBody.From (s : Source) (e : Element) (body : ItemTypeBody) : Prop where
  documentation : body.documentation.From s e
  expressions : ∀ g ∈ Source.itemGrants,
    body.expressionsOf g.1 = (e.within g.2 "Expression").map Element.text
  properties : List.Forall₂ (Declared.From Property.From s) (e.within "Properties" "Property")
    body.properties
  propertyExtensions : List.Forall₂ (MemberExtension.From s)
    (e.within "Properties" "ExtendProperty") body.propertyExtensions
  indexes : body.indexes = (e.within "Indexes" "Index").map Element.text
  sqlAfter : body.sqlAfter = (e.named "SqlAfter").map Element.text

structure ItemType.From (s : Source) (e : Element) (i : ItemType) : Prop where
  name : e.attribute? "Name" = some i.name
  documentation : i.documentation.From s e
  expressions : ∀ g ∈ Source.itemGrants,
    i.expressions g.1 = (e.within g.2 "Expression").map Element.text
  properties : List.Forall₂ (Property.From s) (e.within "Properties" "Property") i.properties
  indexes : i.indexes = (e.within "Indexes" "Index").map Element.text
  sqlAfter : i.sqlAfter = (e.named "SqlAfter").map Element.text

structure ItemTypeExtension.From (s : Source) (e : Element) (x : ItemTypeExtension) :
    Prop where
  name : e.attribute? "Name" = some x.name
  location : x.location = s.location e
  body : x.body.From s e

structure View.From (s : Source) (e : Element) (v : View) : Prop where
  name : e.attribute? "Name" = some v.name
  columns : List.Forall₂ (Column.From s) (e.within "Columns" "Column") v.columns
  parameters : List.Forall₂ (Parameter.From s) (e.within "Parameters" "Parameter") v.parameters
  implementation : (e.named "Implementation").map Element.text = [v.implementation]
  expressions : v.expressions = (e.within "GrantQueryRight" "Expression").map Element.text
  documentation : v.documentation.From s e

structure ViewExtension.From (s : Source) (e : Element) (x : ViewExtension) : Prop where
  name : e.attribute? "Name" = some x.name
  location : x.location = s.location e
  expressions : x.expressions = (e.within "GrantQueryRight" "Expression").map Element.text
  documentation : x.documentation.From s e

structure Right.From (s : Source) (e : Element) (r : Right) : Prop where
  name : e.attribute? "Name" = some r.name
  parameters : List.Forall₂ (Parameter.From s) (e.within "Parameters" "Parameter") r.parameters
  expressions : r.expressions = (e.within "Grant" "Expression").map Element.text
  documentation : r.documentation.From s e

structure RightExtension.From (s : Source) (e : Element) (x : RightExtension) : Prop where
  name : e.attribute? "Name" = some x.name
  location : x.location = s.location e
  parameters : List.Forall₂ (Declared.From Parameter.From s) (e.within "Parameters" "Parameter")
    x.parameters
  parameterExtensions : List.Forall₂ (MemberExtension.From s)
    (e.within "Parameters" "ExtendParameter") x.parameterExtensions
  expressions : x.expressions = (e.within "Grant" "Expression").map Element.text
  documentation : x.documentation.From s e

/-- The declarations of a file: those of each kind have one entry for each child of the root
that is of this kind. -/
structure SchemaFile.From (s : Source) (root : Element) (file : SchemaFile) : Prop where
  fileName : file.fileName = s.fileName
  enums : List.Forall₂ (Declared.From EnumType.From s) (root.named "Enum") file.enums
  itemTypes : List.Forall₂ (Declared.From ItemType.From s) (root.named "ItemType")
    file.itemTypes
  views : List.Forall₂ (Declared.From View.From s) (root.named "View") file.views
  rights : List.Forall₂ (Declared.From Right.From s) (root.named "Right") file.rights
  itemTypeExtensions : List.Forall₂ (ItemTypeExtension.From s) (root.named "ExtendItemType")
    file.itemTypeExtensions
  viewExtensions : List.Forall₂ (ViewExtension.From s) (root.named "ExtendView")
    file.viewExtensions
  rightExtensions : List.Forall₂ (RightExtension.From s) (root.named "ExtendRight")
    file.rightExtensions
  sqlBefore : file.sqlBefore = (root.named "SqlBefore").map Element.text
  sqlAfter : file.sqlAfter = (root.named "SqlAfter").map Element.text

/-! ## Lists of entries -/

section Lists

variable {α β : Type} {R : α → β → Prop} {xs : List α}

theorem forall₂_map {f : α → β} (each : ∀ a ∈ xs, R a (f a)) : List.Forall₂ R xs (xs.map f) :=
  List.forall₂_map_right_iff.mpr (List.forall₂_same.mpr each)

/-- Where every member of a list gives something, nothing is left out. -/
theorem forall₂_filterMap {f : α → Option β} (each : ∀ a ∈ xs, ∃ b, f a = some b ∧ R a b) :
    List.Forall₂ R xs (xs.filterMap f) := by
  induction xs with
  | nil => exact .nil
  | cons a rest ih =>
      rw [List.forall_mem_cons] at each
      obtain ⟨⟨b, given, related⟩, each⟩ := each
      rw [List.filterMap_cons_some given]
      exact .cons related (ih each)

end Lists

/-- Inside a child that may come once only, the elements are those of the first one. -/
theorem Obeys.within_eq {rule : ElementRule} {e : Element} (h : Obeys rule e)
    {outer : String} (single : outer ∈ rule.single) (inner : String) :
    e.within outer inner = ((e.first? outer).toList).flatMap fun o => o.named inner := by
  rw [Element.within, h.named_eq single]

theorem Obeys.named_eq_nil {rule : ElementRule} {e : Element} (h : Obeys rule e) (name : String)
    (unknown : name ∉ rule.children) : e.named name = [] := by
  refine List.filter_eq_nil_iff.mpr fun c inside named => unknown ?_
  exact beq_iff_eq.mp named ▸ (h.children c inside).1

namespace Source

variable {s : Source} {rule : ElementRule} {e : Element}

/-! ## Texts -/

theorem value_statement (clean : (s.statement e rule).Clean) :
    (s.statement e rule).value = some e.text := by
  simp only [statement, Checked.clean_bind] at clean
  simp only [statement, Checked.value_bind]
  split at clean
  next => simp at clean
  next written => rw [if_neg written, Checked.value_pure]

theorem value_statements (clean : (s.statements e rule).Clean) :
    (s.statements e rule).value = (e.named rule.name).map Element.text := by
  rw [statements, Checked.value_eachSome, ← List.filterMap_eq_map]
  refine List.filterMap_congr fun c listed => ?_
  exact value_statement (Checked.clean_eachSome.mp clean c listed)

theorem value_expressions {grant : String} (clean : (s.expressions e grant).Clean) :
    (s.expressions e grant).value = (e.within grant "Expression").map Element.text := by
  simp only [expressions, Checked.clean_bind, Checked.clean_each] at clean
  simp only [expressions, Checked.value_bind, Checked.value_each, Checked.value_pure]
  rw [Element.within, List.map_flatMap, List.flatMap]
  congr 1
  exact List.map_congr_left fun g listed => value_statements (clean.1 g listed).2

theorem value_constraints (obeys : Obeys rule e) (single : "Constraints" ∈ rule.single)
    (clean : (s.constraints e).Clean) :
    (s.constraints e).value = (e.within "Constraints" "Constraint").map Element.text := by
  rw [obeys.within_eq single]
  unfold constraints at clean ⊢
  split at clean
  next missing => simp [missing]
  next c found =>
    rw [Checked.clean_bind] at clean
    simpa [found] using! value_statements clean.2

theorem value_indexes (obeys : Obeys rule e) (single : "Indexes" ∈ rule.single)
    (clean : (s.indexes e).Clean) :
    (s.indexes e).value = (e.within "Indexes" "Index").map Element.text := by
  rw [obeys.within_eq single]
  unfold indexes at clean ⊢
  split at clean
  next missing => simp [missing]
  next i found =>
    rw [Checked.clean_bind] at clean
    simpa [found] using! value_statements clean.2

theorem value_implementation {name : String} (obeys : Obeys rule e)
    (single : "Implementation" ∈ rule.single) (clean : (s.implementation name e).Clean) :
    (e.named "Implementation").map Element.text = [(s.implementation name e).value] := by
  rw [obeys.named_eq single]
  unfold implementation at clean ⊢
  split at clean
  next i found =>
    rw [Checked.clean_bind] at clean
    simp [found, value_statement clean.1]
  next missing => simp at clean

/-! ## Names and documentation -/

theorem attribute_name (conforms : s.violations e rule = []) (required : "Name" ∈ rule.required) :
    e.attribute? "Name" = some (s.name e).value := by
  obtain ⟨name, found⟩ := Option.isSome_iff_exists.mp (attribute_isSome conforms required)
  rw [value_name, found, Option.getD_some]

theorem from_documentation (obeys : Obeys rule e) (single : "Documentation" ∈ rule.single)
    (clean : (s.documentation e).Clean) : (s.documentation e).value.From s e := by
  have summaries := obeys.within_eq single "Summary"
  have remarks := obeys.within_eq single "Remarks"
  unfold documentation at clean ⊢
  split at clean
  next missing =>
    rw [missing] at summaries remarks
    exact ⟨by rw [summaries]; rfl, by rw [remarks]; rfl⟩
  next d found =>
    rw [Checked.clean_bind, clean_check] at clean
    have inner := obeys_of_violations clean.1
    rw [found, Option.toList_some, List.flatMap_singleton, inner.named_eq (by decide)]
      at summaries remarks
    exact ⟨summaries ▸ Option.toList_map .., remarks ▸ Option.toList_map ..⟩

/-! ## Members -/

theorem isSome_default? {subject : Subject} {type : ValueType} {nullable : Bool}
    (clean : (s.default? e subject type nullable).Clean) :
    (s.default? e subject type nullable).value.isSome = (e.first? "Default").isSome := by
  unfold default? at clean ⊢
  split at clean
  next d found =>
    simp only [found, Option.isSome_some]
    simp only [defaultValue, Checked.clean_bind] at clean
    simp only [defaultValue, Checked.value_bind]
    obtain ⟨-, -, -, clean⟩ := clean
    -- Every way to end without a default reports a problem.
    split at clean
    next isNull => simp [isNull]
    next notNull =>
      split at clean
      next empty => simp at clean
      next written =>
        split at clean
        next isFunction => simp [notNull, written, isFunction]
        next notFunction =>
          split at clean
          next literal accepted => simp [notNull, written, notFunction]
          next => simp at clean
  next missing => rw [missing]; rfl

theorem from_memberExtension {element : String} (clean : (s.memberExtension element e).Clean) :
    (s.memberExtension element e).value.From s e := by
  simp only [memberExtension, Checked.clean_bind, clean_check] at clean
  obtain ⟨conforms, -, documented, -⟩ := clean
  have obeys := obeys_of_violations conforms
  exact ⟨attribute_name conforms (List.mem_cons_self ..), rfl,
    from_documentation obeys (List.mem_cons_self ..) documented⟩

/-- What is common to properties, columns and parameters comes from the element. -/
theorem from_member {name : String} {type : ValueType} (inBase : Bool)
    (conforms : s.violations e rule = []) (named : "Name" ∈ rule.required)
    (single : "Documentation" ∈ rule.single) (written : e.attribute? "Type" = some name)
    (known : ValueType.ofSchemaName? name = some type) (documented : (s.documentation e).Clean) :
    Member.From s e ⟨(s.name e).value, type, e.attribute? "ReferencedItemTypeName",
      e.attribute? "EnumName", (s.documentation e).value, inBase⟩ where
  name := attribute_name conforms named
  type := by rw [written, Option.bind_some, known]
  itemTypeName := rfl
  enumName := rfl
  documentation := from_documentation (obeys_of_violations conforms) single documented

theorem from_column {owner : String} (clean : (s.column owner e).Clean) :
    ∃ c, (s.column owner e).value = some c ∧ c.From s e := by
  simp only [column, Checked.clean_bind, clean_check] at clean
  obtain ⟨conforms, -, typed, clean⟩ := clean
  obtain ⟨name, type, written, known, found⟩ := valueType_eq_some conforms (by decide) typed
  rw [found] at clean
  simp only [Checked.clean_bind] at clean
  simp only [column, Checked.value_bind, found]
  exact ⟨_, rfl, from_member s.inBase conforms (by decide) (by decide) written known clean.2.1⟩

theorem from_parameter {owner : Owner} (clean : (s.parameter owner e).Clean) :
    ∃ d, (s.parameter owner e).value = some d ∧ d.From Parameter.From s e := by
  simp only [parameter, Checked.clean_bind, clean_check] at clean
  obtain ⟨conforms, -, typed, clean⟩ := clean
  obtain ⟨name, type, written, known, found⟩ := valueType_eq_some conforms (by decide) typed
  rw [found] at clean
  simp only [Checked.clean_bind] at clean
  simp only [parameter, Checked.value_bind, found]
  have member := from_member s.inBase conforms (by decide) (by decide) written known clean.2.1
  exact ⟨_, rfl, member, rfl⟩

theorem from_property {owner : String} (clean : (s.property owner e).Clean) :
    ∃ d, (s.property owner e).value = some d ∧ d.From Property.From s e := by
  simp only [property, Checked.clean_bind, clean_check] at clean
  obtain ⟨conforms, -, -, typed, clean⟩ := clean
  obtain ⟨name, type, written, known, found⟩ := valueType_eq_some conforms (by decide) typed
  rw [found] at clean
  simp only [Checked.clean_bind] at clean
  obtain ⟨-, -, -, -, -, -, -, defaulted, constrained, documented, -⟩ := clean
  simp only [property, Checked.value_bind, found]
  have member := from_member s.inBase conforms (by decide) (by decide) written known documented
  refine ⟨_, rfl, ⟨member, isSome_default? defaulted, ?_⟩, rfl⟩
  exact value_constraints (obeys_of_violations conforms) (by decide) constrained

/-! ## Lists of members -/

/-- Every member of a list is added after those before it, and so is every extension of one
where extensions may stand. -/
theorem value_memberList {α : Type} {kind : MemberKind α} {extending : Bool}
    {before : List α × List MemberExtension} {es : List Element}
    (clean : (s.memberList kind extending before es).Clean) :
    (s.memberList kind extending before es).value =
      (before.1 ++ (es.filter fun c => c.name == kind.element).filterMap fun c =>
          (kind.read c).value,
        before.2 ++ (es.filter fun c => c.name = kind.extension && extending).map fun c =>
          (s.memberExtension kind.extension c).value) := by
  induction es generalizing before with
  | nil => simp [memberList]
  | cons e rest ih =>
      unfold memberList at clean ⊢
      simp only [List.filter_cons]
      split at clean
      next isMember =>
        rw [Checked.clean_bind] at clean
        cases read : (kind.read e).value with
        | none =>
            rw [read] at clean
            simp [isMember, kind.distinct, read, ih clean.2]
        | some member =>
            simp only [read] at clean
            obtain ⟨-, clean⟩ := clean
            split at clean
            next taken => simp at clean
            next fresh =>
              simp only [isMember, beq_self_eq_true, if_true, Checked.value_bind, read,
                if_neg fresh, ih clean, List.filterMap_cons]
              simp [kind.distinct]
      next notMember =>
        have different : (e.name == kind.element) = false := beq_eq_false_iff_ne.mpr notMember
        rw [if_neg notMember, if_neg (ne_true_of_eq_false different)]
        split at clean
        next isExtension =>
          rw [Checked.clean_bind] at clean
          rw [if_pos isExtension, if_pos isExtension, Checked.value_bind, ih clean.2]
          simp
        next other => rw [if_neg other, if_neg other, ih clean]

/-- What stands in an element with members: an entry for each member and for each extension. -/
theorem forall₂_memberList {α : Type} {kind : MemberKind α} {extending : Bool} {list : Element}
    {P : Element → α → Prop} (clean : (s.memberList kind extending ([], []) list.elements).Clean)
    (read : ∀ c, (kind.read c).Clean → ∃ member, (kind.read c).value = some member ∧ P c member)
    (known : extending = false → list.named kind.extension = []) :
    List.Forall₂ P (list.named kind.element)
        (s.memberList kind extending ([], []) list.elements).value.1 ∧
      List.Forall₂ (MemberExtension.From s) (list.named kind.extension)
        (s.memberList kind extending ([], []) list.elements).value.2 := by
  have each := clean_of_memberList clean
  rw [value_memberList clean]
  refine ⟨forall₂_filterMap fun c listed => ?_, ?_⟩
  · obtain ⟨inside, named⟩ := List.mem_filter.mp listed
    exact read c ((each c inside).1 (beq_iff_eq.mp named))
  · cases extending with
    | false =>
        rw [known rfl]
        simp
    | true =>
        simp only [Bool.and_true]
        exact forall₂_map fun c listed => by
          obtain ⟨inside, named⟩ := List.mem_filter.mp listed
          exact from_memberExtension ((each c inside).2 (beq_iff_eq.mp named) rfl)

theorem from_properties {owner : String} {extending : Bool} (obeys : Obeys rule e)
    (single : "Properties" ∈ rule.single) (clean : (s.properties owner extending e).Clean) :
    List.Forall₂ (Declared.From Property.From s) (e.within "Properties" "Property")
        (s.properties owner extending e).value.1 ∧
      List.Forall₂ (MemberExtension.From s) (e.within "Properties" "ExtendProperty")
        (s.properties owner extending e).value.2 := by
  rw [obeys.within_eq single, obeys.within_eq single]
  unfold properties at clean ⊢
  split at clean
  next missing => simp [missing]
  next p found =>
    rw [Checked.clean_bind, clean_check, propertyList_eq] at clean
    rw [found, Checked.value_bind, propertyList_eq, Option.toList_some, List.flatMap_singleton,
      List.flatMap_singleton]
    refine forall₂_memberList clean.2 (fun c read => from_property read) fun plain => ?_
    subst plain
    exact (obeys_of_violations clean.1).named_eq_nil "ExtendProperty" (by decide)

theorem from_parameters {owner : Owner} {extending : Bool} (obeys : Obeys rule e)
    (single : "Parameters" ∈ rule.single) (clean : (s.parameters owner extending e).Clean) :
    List.Forall₂ (Declared.From Parameter.From s) (e.within "Parameters" "Parameter")
        (s.parameters owner extending e).value.1 ∧
      List.Forall₂ (MemberExtension.From s) (e.within "Parameters" "ExtendParameter")
        (s.parameters owner extending e).value.2 := by
  rw [obeys.within_eq single, obeys.within_eq single]
  unfold parameters at clean ⊢
  split at clean
  next missing => simp [missing]
  next p found =>
    rw [Checked.clean_bind, clean_check, parameterList_eq] at clean
    rw [found, Checked.value_bind, parameterList_eq, Option.toList_some, List.flatMap_singleton,
      List.flatMap_singleton]
    refine forall₂_memberList clean.2 (fun c read => from_parameter read) fun plain => ?_
    subst plain
    exact (obeys_of_violations clean.1).named_eq_nil "ExtendParameter" (by decide)

/-- The declarations of members without their places. -/
theorem forall₂_items {α : Type} {P : Source → Element → α → Prop} {es : List Element}
    {ds : List (Declared α)} (h : List.Forall₂ (Declared.From P s) es ds) :
    List.Forall₂ (P s) es (ds.map Declared.item) :=
  List.forall₂_map_right_iff.mpr (h.imp fun _ _ entry => entry.item)

theorem from_columns {view : String} (obeys : Obeys rule e) (single : "Columns" ∈ rule.single)
    (clean : (s.columns view e).Clean) :
    List.Forall₂ (Column.From s) (e.within "Columns" "Column") (s.columns view e).value := by
  rw [obeys.within_eq single]
  unfold columns at clean ⊢
  split at clean
  next missing => simp [missing]
  next c found =>
    rw [Checked.clean_bind, Checked.clean_eachSome] at clean
    rw [found, Checked.value_bind, Checked.value_eachSome, Option.toList_some,
      List.flatMap_singleton]
    exact forall₂_filterMap fun c listed => from_column (clean.2 c listed)

/-- Every value of a list is added after those before it. -/
theorem from_enumValues {enum : String} {before : List EnumValue} {es : List Element}
    (clean : (s.enumValues enum before es).Clean) :
    ∃ values, (s.enumValues enum before es).value = before ++ values ∧
      List.Forall₂ (EnumValue.From s) es values := by
  induction es generalizing before with
  | nil => exact ⟨[], (List.append_nil before).symm, .nil⟩
  | cons e rest ih =>
      simp only [enumValues, Checked.clean_bind, clean_check] at clean
      obtain ⟨conforms, -, counted, clean⟩ := clean
      obtain ⟨text, n, written, read, found⟩ := integer_eq_some conforms (by decide) counted
      simp only [enumValues, Checked.value_bind, found] at clean ⊢
      split at clean
      next taken => simp at clean
      next fresh =>
        obtain ⟨values, added, entries⟩ := ih clean
        rw [if_neg fresh, added, List.append_assoc]
        refine ⟨_, rfl, .cons ⟨attribute_name conforms (by decide), ?_, ?_⟩ entries⟩
        · rw [written, Option.bind_some, read]
        · rw [(obeys_of_violations conforms).named_eq (by decide), Option.toList_map]

theorem from_values {enum : String} (obeys : Obeys rule e) (single : "Values" ∈ rule.single)
    (clean : (s.values enum e).Clean) :
    List.Forall₂ (EnumValue.From s) (e.within "Values" "Value") (s.values enum e).value := by
  rw [obeys.within_eq single]
  unfold values at clean ⊢
  split at clean
  next missing => simp [missing]
  next v found =>
    rw [Checked.clean_bind] at clean
    obtain ⟨values, added, entries⟩ := from_enumValues clean.2
    rw [found, Checked.value_bind, added, Option.toList_some, List.flatMap_singleton]
    exact entries

/-! ## Elements of a file -/

theorem from_enumType (clean : (s.enumType e).Clean) :
    (s.enumType e).value.From EnumType.From s e := by
  simp only [enumType, Checked.clean_bind, clean_check] at clean
  obtain ⟨conforms, -, documented, valued, -⟩ := clean
  have obeys := obeys_of_violations conforms
  exact {
    location := rfl
    item := {
      name := attribute_name conforms (by decide)
      values := from_values obeys (by decide) valued
      documentation := from_documentation obeys (by decide) documented } }

/-- Among the expressions of one right, those of a right are all or none. -/
theorem filter_expressions (own right : ItemRight) (xs : List String) :
    ((xs.map fun x => (own, x)).filter fun e => e.1 == right).map Prod.snd =
      if own = right then xs else [] := by
  by_cases same : own = right
  · subst same
    simp [List.filter_map, Function.comp_def]
  · simp [List.filter_map, Function.comp_def, beq_eq_false_iff_ne.mpr same, same]

/-- The expressions of each right are those inside its own grants. -/
theorem expressionsOf_itemTypeBody {name : String} {extending : Bool} {right : ItemRight}
    {grant : String} (clean : (s.itemTypeBody name extending e).Clean)
    (known : (right, grant) ∈ itemGrants) :
    (s.itemTypeBody name extending e).value.expressionsOf right =
      (e.within grant "Expression").map Element.text := by
  simp only [itemTypeBody, Checked.clean_bind, Checked.clean_each, itemExpressions] at clean
  rw [← value_expressions (clean.2.1 (right, grant) known).1]
  simp only [itemTypeBody, ItemTypeBody.expressionsOf, Checked.value_bind, Checked.value_each,
    Checked.value_pure, itemExpressions]
  simp only [itemGrants, List.mem_cons, Prod.mk.injEq, List.not_mem_nil, or_false] at known ⊢
  simp only [List.map_cons, List.map_nil, List.flatten_cons, List.flatten_nil,
    List.filter_append, List.map_append, filter_expressions]
  rcases known with ⟨rfl, rfl⟩ | ⟨rfl, rfl⟩ | ⟨rfl, rfl⟩ | ⟨rfl, rfl⟩ <;> simp

theorem from_itemTypeBody {name : String} {extending : Bool} (obeys : Obeys rule e)
    (single : rule.single = ["Documentation", "Properties", "Indexes"])
    (clean : (s.itemTypeBody name extending e).Clean) :
    (s.itemTypeBody name extending e).value.From s e := by
  have granted : ∀ g ∈ itemGrants, (s.itemTypeBody name extending e).value.expressionsOf g.1 =
      (e.within g.2 "Expression").map Element.text :=
    fun g known => expressionsOf_itemTypeBody clean known
  simp only [itemTypeBody, Checked.clean_bind] at clean
  obtain ⟨documented, -, propertied, indexed, followed, -⟩ := clean
  have once {n : String} (listed : n ∈ ["Documentation", "Properties", "Indexes"]) :
      n ∈ rule.single := single ▸ listed
  have members := from_properties obeys (once (by decide)) propertied
  exact {
    documentation := from_documentation obeys (once (by decide)) documented
    expressions := granted
    properties := members.1
    propertyExtensions := members.2
    indexes := value_indexes obeys (once (by decide)) indexed
    sqlAfter := value_statements followed }

theorem from_itemType (clean : (s.itemType e).Clean) :
    (s.itemType e).value.From ItemType.From s e := by
  simp only [itemType, Checked.clean_bind, clean_check] at clean
  obtain ⟨conforms, -, clean, -⟩ := clean
  have body := from_itemTypeBody (obeys_of_violations conforms) rfl clean
  exact {
    location := rfl
    item := {
      name := attribute_name conforms (by decide)
      documentation := body.documentation
      expressions := fun g known => by
        rw [← body.expressions g known]
        cases g.1 <;> rfl
      properties := forall₂_items body.properties
      indexes := body.indexes
      sqlAfter := body.sqlAfter } }

theorem from_itemTypeExtension (clean : (s.itemTypeExtension e).Clean) :
    (s.itemTypeExtension e).value.From s e := by
  simp only [itemTypeExtension, Checked.clean_bind, clean_check] at clean
  obtain ⟨conforms, -, -, clean, -⟩ := clean
  exact {
    name := attribute_name conforms (by decide)
    location := rfl
    body := from_itemTypeBody (obeys_of_violations conforms) rfl clean }

theorem from_view (clean : (s.view e).Clean) : (s.view e).value.From View.From s e := by
  simp only [view, Checked.clean_bind, clean_check] at clean
  obtain ⟨conforms, -, listing, accepting, implemented, granted, documented, -⟩ := clean
  have obeys := obeys_of_violations conforms
  exact {
    location := rfl
    item := {
      name := attribute_name conforms (by decide)
      columns := from_columns obeys (by decide) listing
      parameters := forall₂_items (from_parameters obeys (by decide) accepting).1
      implementation := value_implementation obeys (by decide) implemented
      expressions := value_expressions granted
      documentation := from_documentation obeys (by decide) documented } }

theorem from_viewExtension (clean : (s.viewExtension e).Clean) :
    (s.viewExtension e).value.From s e := by
  simp only [viewExtension, Checked.clean_bind, clean_check] at clean
  obtain ⟨conforms, -, documented, granted, -⟩ := clean
  exact {
    name := attribute_name conforms (by decide)
    location := rfl
    expressions := value_expressions granted
    documentation := from_documentation (obeys_of_violations conforms) (by decide) documented }

theorem from_right (clean : (s.right e).Clean) : (s.right e).value.From Right.From s e := by
  simp only [right, Checked.clean_bind, clean_check] at clean
  obtain ⟨conforms, -, accepting, granted, documented, -⟩ := clean
  have obeys := obeys_of_violations conforms
  exact {
    location := rfl
    item := {
      name := attribute_name conforms (by decide)
      parameters := forall₂_items (from_parameters obeys (by decide) accepting).1
      expressions := value_expressions granted
      documentation := from_documentation obeys (by decide) documented } }

theorem from_rightExtension (clean : (s.rightExtension e).Clean) :
    (s.rightExtension e).value.From s e := by
  simp only [rightExtension, Checked.clean_bind, clean_check] at clean
  obtain ⟨conforms, -, accepting, documented, granted, -⟩ := clean
  have obeys := obeys_of_violations conforms
  have members := from_parameters obeys (by decide) accepting
  exact {
    name := attribute_name conforms (by decide)
    location := rfl
    parameters := members.1
    parameterExtensions := members.2
    expressions := value_expressions granted
    documentation := from_documentation obeys (by decide) documented }

/-! ## Files -/

/-- Each declaration goes to the end of the list of its kind. -/
theorem value_declarations (file : SchemaFile) (es : List Element) :
    (s.declarations file es).value =
      { fileName := file.fileName
        enums := file.enums ++ (es.filter fun c => c.name == "Enum").map fun c =>
          (s.enumType c).value
        itemTypes := file.itemTypes ++ (es.filter fun c => c.name == "ItemType").map fun c =>
          (s.itemType c).value
        views := file.views ++ (es.filter fun c => c.name == "View").map fun c =>
          (s.view c).value
        rights := file.rights ++ (es.filter fun c => c.name == "Right").map fun c =>
          (s.right c).value
        itemTypeExtensions := file.itemTypeExtensions ++
          (es.filter fun c => c.name == "ExtendItemType").map fun c =>
            (s.itemTypeExtension c).value
        viewExtensions := file.viewExtensions ++
          (es.filter fun c => c.name == "ExtendView").map fun c => (s.viewExtension c).value
        rightExtensions := file.rightExtensions ++
          (es.filter fun c => c.name == "ExtendRight").map fun c => (s.rightExtension c).value
        sqlBefore := file.sqlBefore ++
          (es.filter fun c => c.name == "SqlBefore").flatMap fun c =>
            (s.statement c .sqlBefore).value.toList
        sqlAfter := file.sqlAfter ++
          (es.filter fun c => c.name == "SqlAfter").flatMap fun c =>
            (s.statement c .sqlAfter).value.toList } := by
  induction es generalizing file with
  | nil => simp [declarations]
  | cons e rest ih =>
      rw [declarations, Checked.value_bind, ih]
      unfold declaration
      split <;> simp_all

/-- What a child of the root is read as was read without problems. -/
structure ReadClean (s : Source) (c : Element) : Prop where
  enum : c.name = "Enum" → (s.enumType c).Clean
  itemType : c.name = "ItemType" → (s.itemType c).Clean
  view : c.name = "View" → (s.view c).Clean
  right : c.name = "Right" → (s.right c).Clean
  extendItemType : c.name = "ExtendItemType" → (s.itemTypeExtension c).Clean
  extendView : c.name = "ExtendView" → (s.viewExtension c).Clean
  extendRight : c.name = "ExtendRight" → (s.rightExtension c).Clean
  sqlBefore : c.name = "SqlBefore" → (s.statement c .sqlBefore).Clean
  sqlAfter : c.name = "SqlAfter" → (s.statement c .sqlAfter).Clean

theorem readClean_of_declaration {file : SchemaFile} {c : Element}
    (clean : (s.declaration file c).Clean) : ReadClean s c := by
  constructor <;> intro named <;>
    simpa only [declaration, named, Checked.clean_bind, Checked.clean_pure, and_true] using clean

/-- The statements of one kind in a file. -/
theorem flatMap_statements {es : List Element}
    (clean : ∀ c ∈ es, (s.statement c rule).Clean) :
    (es.flatMap fun c => (s.statement c rule).value.toList) = es.map Element.text := by
  rw [← List.flatMap_pure_eq_map]
  exact List.flatMap_congr fun c listed => by rw [value_statement (clean c listed)]; rfl

/-- The file that a clean pass gives has an entry for every element. -/
theorem from_file (clean : s.file.Clean) : s.file.value.From s s.document.root := by
  obtain ⟨-, -, clean, value⟩ := clean_file clean
  have read {kind : String} {c : Element} (listed : c ∈ s.document.root.named kind) :
      c.name = kind ∧ ReadClean s c := by
    obtain ⟨inside, named⟩ := List.mem_filter.mp listed
    have clean := clean_of_declarations clean c inside (.empty s.fileName)
    exact ⟨beq_iff_eq.mp named, readClean_of_declaration clean⟩
  rw [value, value_declarations]
  exact {
    fileName := rfl
    enums := forall₂_map fun c listed => from_enumType ((read listed).2.enum (read listed).1)
    itemTypes := forall₂_map fun c listed =>
      from_itemType ((read listed).2.itemType (read listed).1)
    views := forall₂_map fun c listed => from_view ((read listed).2.view (read listed).1)
    rights := forall₂_map fun c listed => from_right ((read listed).2.right (read listed).1)
    itemTypeExtensions := forall₂_map fun c listed =>
      from_itemTypeExtension ((read listed).2.extendItemType (read listed).1)
    viewExtensions := forall₂_map fun c listed =>
      from_viewExtension ((read listed).2.extendView (read listed).1)
    rightExtensions := forall₂_map fun c listed =>
      from_rightExtension ((read listed).2.extendRight (read listed).1)
    sqlBefore := flatMap_statements fun c listed =>
      (read listed).2.sqlBefore (read listed).1
    sqlAfter := flatMap_statements fun c listed => (read listed).2.sqlAfter (read listed).1 }

end Source

/-- A file that is accepted is a document with the right root, whose elements all follow the
grammar, and its declarations are those of the document, each of them once and in order. -/
theorem SchemaFile.complete_of_read {text fileName : String} {inBase : Bool} {file : SchemaFile}
    (accepted : SchemaFile.read text fileName inBase = .ok file) :
    ∃ document, Document.parse text = .ok document ∧
      document.root.tag.name = ⟨some schemaNamespace, "StoreSchema"⟩ ∧
      Conforms .schemaFile document.root ∧
      file.From ⟨fileName, inBase, document⟩ document.root := by
  unfold SchemaFile.read at accepted
  split at accepted
  next => cases accepted
  next document parsed =>
    obtain ⟨clean, rfl⟩ := Checked.toExcept_eq_ok_iff.mp accepted
    exact ⟨document, parsed, (Source.clean_file clean).1, Source.conforms_file clean,
      Source.from_file clean⟩

theorem SchemaFile.complete_derivedFile :
    SchemaFile.read (String.ofList Sample.derivedFile) "derived.xml" false =
        .ok Sample.derivedContent ∧
      (Sample.derivedContent.rights.map fun r => r.item.expressions) = [["@a", "@b"]] ∧
      ∃ document, Document.parse (String.ofList Sample.derivedFile) = .ok document ∧
        document.root.tag.name = ⟨some schemaNamespace, "StoreSchema"⟩ ∧
        Conforms .schemaFile document.root ∧
        Sample.derivedContent.From ⟨"derived.xml", false, document⟩ document.root :=
  ⟨Sample.read_derivedFile, by decide +kernel,
    SchemaFile.complete_of_read Sample.read_derivedFile⟩

end LearningStore.Schema
