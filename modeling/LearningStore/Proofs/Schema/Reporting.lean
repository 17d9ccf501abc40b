import LearningStore.Proofs.Schema.Flaws

/-!
# Which flaws are reported

A pass over a file reports the flaws of exactly the elements that it reads.  The elements that the
grammar leads to are among them as long as every member on the way has a value type, and no child
from another namespace comes in front of one that may stand once only.
-/

namespace LearningStore.Schema

open LearningStore.Text
open LearningStore.Value
open LearningStore.Xml
open Relation

/-! ## Structural problems -/

/-- Whether a cause is about the structure of an element. -/
def Cause.isStructural : Cause → Bool
  | attributeNotAllowed _ _ | attributeMissing _ _ | elementNotAllowed _ _ | elementRepeated _ _
  | textNotAllowed _ => true
  | _ => false

theorem Flaw.isStructural {rule : ElementRule} {e : Element} {span : Span} {cause : Cause}
    (flaw : Flaw rule e span cause) : cause.isStructural = true := by
  cases flaw <;> rfl

namespace Checked

variable {α β : Type}

/-- The structural problems that were found while a value was made. -/
def structural (x : Checked α) : List Problem :=
  x.problems.filter fun p => p.cause.isStructural

@[simp] theorem structural_pure (a : α) : (Pure.pure a : Checked α).structural = [] := rfl

@[simp] theorem structural_bind (x : Checked α) (f : α → Checked β) :
    (x >>= f).structural = x.structural ++ (f x.value).structural :=
  List.filter_append ..

@[simp] theorem structural_report (ps : List Problem) :
    (report ps).structural = ps.filter fun p => p.cause.isStructural := rfl

@[simp] theorem structural_reportIf (condition : Bool) (p : Problem) :
    (reportIf condition p).structural = if condition && p.cause.isStructural then [p] else [] := by
  cases condition with
  | false => rfl
  | true => cases structural : p.cause.isStructural <;> simp [reportIf, structural]

@[simp] theorem structural_each (f : α → Checked β) (xs : List α) :
    (each f xs).structural = xs.flatMap fun a => (f a).structural := by
  induction xs with
  | nil => rfl
  | cons a rest ih => simp [each, ih]

@[simp] theorem structural_eachSome (f : α → Checked (Option β)) (xs : List α) :
    (eachSome f xs).structural = xs.flatMap fun a => (f a).structural := by
  simp [eachSome]

end Checked

namespace Source

variable {s : Source} {e : Element} {p : Problem}

open Checked

@[simp] theorem structural_check (s : Source) (e : Element) (rule : ElementRule) :
    (s.check e rule).structural = s.violations e rule := by
  refine List.filter_eq_self.mpr fun p inside => ?_
  obtain ⟨span, cause, flaw, rfl⟩ := mem_violations_iff.mp inside
  exact flaw.isStructural

@[simp] theorem cause_problem (s : Source) (e : Element) (cause : Cause) :
    (s.problem e cause).cause = cause := rfl

@[simp] theorem structural_name (s : Source) (e : Element) : (s.name e).structural = [] := by
  unfold name
  split <;> simp [Cause.isStructural]

@[simp] theorem structural_boolean (s : Source) (e : Element) (name : String) :
    (s.boolean e name).structural = [] := by
  unfold boolean
  split <;> simp [Cause.isStructural]

@[simp] theorem structural_integer (s : Source) (e : Element) (name : String) :
    (s.integer e name).structural = [] := by
  unfold integer
  split <;> simp [Cause.isStructural]

@[simp] theorem structural_valueType (s : Source) (e : Element) :
    (s.valueType e).structural = [] := by
  unfold valueType
  split <;> simp [Cause.isStructural]

@[simp] theorem structural_references (s : Source) (e : Element) (subject : Subject)
    (type : ValueType) : (s.references e subject type).structural = [] := by
  simp [references, reference, Cause.isStructural]

@[simp] theorem structural_length (s : Source) (e : Element) (subject : Subject)
    (type : ValueType) : (s.length e subject type).structural = [] := by
  simp only [length, structural_bind, structural_integer, List.nil_append]
  split <;> simp [Cause.isStructural]

@[simp] theorem structural_statement (s : Source) (e : Element) (rule : ElementRule) :
    (s.statement e rule).structural = s.violations e rule := by
  unfold statement
  split <;> simp [Cause.isStructural]

theorem structural_statements (s : Source) (e : Element) (rule : ElementRule) :
    (s.statements e rule).structural =
      (e.named rule.name).flatMap fun c => s.violations c rule := by
  simp [statements]

@[simp] theorem structural_defaultValue (s : Source) (e : Element) (subject : Subject)
    (type : ValueType) (nullable : Bool) :
    (s.defaultValue e subject type nullable).structural = s.violations e .default := by
  simp only [defaultValue, structural_bind, structural_boolean, structural_check, List.nil_append]
  split
  next => simp [Cause.isStructural]
  next =>
    split
    next => simp [Cause.isStructural]
    next =>
      split
      next => simp
      next => split <;> simp [Cause.isStructural]

/-! ## Problems below an element -/

/-- A problem is a flaw of an element that a pass reads from another one on. -/
def Finds (s : Source) (role : Role) (e : Element) (p : Problem) : Prop :=
  ∃ x, ReflTransGen ReadsNext (role, e) x ∧ p ∈ s.violations x.2 x.1.rule

/-- The children with a name that a part leads to. -/
def picked (role : Role) (name : String) (e : Element) : List Element :=
  if name ∈ role.rule.single then (e.first? name).toList else e.named name

theorem mem_descend_iff {role : Role} {y : Role × Element} :
    y ∈ role.descend e.elements ↔ (∃ name, (name, y.1) ∈ role.parts ∧ y.2 ∈ picked role name e) := by
  have first (name : String) : (e.named name).take 1 = (e.first? name).toList := by
    rw [Element.first?, ← List.head?_filter, Element.named, List.take_one]
  have chosen (name : String) : (if name ∈ role.rule.single then (e.named name).take 1
      else e.named name) = picked role name e := by
    rw [first]
    rfl
  constructor
  · intro inside
    obtain ⟨⟨name, part⟩, listed, member⟩ := List.mem_flatMap.mp inside
    obtain ⟨c, found, rfl⟩ := List.mem_map.mp member
    exact ⟨name, listed, chosen name ▸ found⟩
  · rintro ⟨name, listed, found⟩
    refine List.mem_flatMap.mpr ⟨(name, y.1), listed, List.mem_map.mpr ⟨y.2, ?_, rfl⟩⟩
    exact (chosen name).symm ▸ found

theorem finds_iff {role : Role} : s.Finds role e p ↔ p ∈ s.violations e role.rule ∨
    role.isRead e = true ∧ ∃ name part, (name, part) ∈ role.parts ∧
      ∃ c ∈ picked role name e, s.Finds part c p := by
  constructor
  · rintro ⟨x, path, found⟩
    rcases path.cases_head with rfl | ⟨y, ⟨read, inside⟩, rest⟩
    · exact .inl found
    · obtain ⟨name, listed, member⟩ := mem_descend_iff.mp inside
      exact .inr ⟨read, name, y.1, listed, y.2, member, x, rest, found⟩
  · rintro (found | ⟨read, name, part, listed, c, member, x, rest, found⟩)
    · exact ⟨_, .refl, found⟩
    · exact ⟨x, .head ⟨read, mem_descend_iff.mpr ⟨name, listed, member⟩⟩ rest, found⟩

theorem finds_of_leaf (role : Role) (leaf : role.parts = []) :
    s.Finds role e p ↔ p ∈ s.violations e role.rule := by
  rw [finds_iff, leaf]
  exact or_iff_left fun ⟨_, _, _, listed, _⟩ => absurd listed List.not_mem_nil

/-! ## What every reader finds -/

theorem mem_documentation : p ∈ (s.documentation e).structural ↔
    ∃ d ∈ e.first? "Documentation", s.Finds .documentation d p := by
  unfold documentation
  cases e.first? "Documentation" with
  | none => simp
  | some d => simp [finds_of_leaf .documentation rfl, Role.rule]

theorem mem_statements (part : Role) (leaf : part.parts = []) :
    p ∈ (s.statements e part.rule).structural ↔
      ∃ c ∈ e.named part.rule.name, s.Finds part c p := by
  simp only [structural_statements, List.mem_flatMap, finds_of_leaf part leaf]

/-- An element that holds statements of one kind, whatever their number. -/
theorem finds_of_statements {role : Role} (part : Role) (leaf : part.parts = [])
    (only : role.parts = [(part.rule.name, part)]) (free : role.rule.single = [])
    (always : role.isRead e = true) : s.Finds role e p ↔
      p ∈ s.violations e role.rule ∨ p ∈ (s.statements e part.rule).structural := by
  rw [finds_iff, mem_statements part leaf]
  simp only [only, always, picked, free, List.mem_singleton, Prod.mk.injEq, true_and]
  simp

theorem mem_expressions {grant : String} : p ∈ (s.expressions e grant).structural ↔
    ∃ g ∈ e.named grant, s.Finds (.grant grant) g p := by
  have each (g : Element) : s.Finds (.grant grant) g p ↔
      p ∈ s.violations g (.grant grant) ∨ p ∈ (s.statements g .expression).structural :=
    finds_of_statements .expression rfl rfl rfl rfl
  simp [expressions, each]

theorem mem_constraints : p ∈ (s.constraints e).structural ↔
    ∃ c ∈ e.first? "Constraints", s.Finds .constraints c p := by
  have each (c : Element) : s.Finds .constraints c p ↔
      p ∈ s.violations c .constraints ∨ p ∈ (s.statements c .constraint).structural :=
    finds_of_statements .constraint rfl rfl rfl rfl
  unfold constraints
  cases e.first? "Constraints" <;> simp [each]

theorem mem_indexes : p ∈ (s.indexes e).structural ↔
    ∃ i ∈ e.first? "Indexes", s.Finds .indexes i p := by
  have each (i : Element) : s.Finds .indexes i p ↔
      p ∈ s.violations i .indexes ∨ p ∈ (s.statements i .index).structural :=
    finds_of_statements .index rfl rfl rfl rfl
  unfold indexes
  cases e.first? "Indexes" <;> simp [each]

theorem mem_default? {subject : Subject} {type : ValueType} {nullable : Bool} :
    p ∈ (s.default? e subject type nullable).structural ↔
      ∃ d ∈ e.first? "Default", s.Finds .default d p := by
  unfold default?
  cases e.first? "Default" with
  | none => simp
  | some d => simp [finds_of_leaf .default rfl, Role.rule]

/-- An element with nothing in it that plays a part but documentation. -/
theorem finds_of_documentation {role : Role} (only : role.parts = [("Documentation", .documentation)])
    (single : role.rule.single = ["Documentation"]) : s.Finds role e p ↔
      p ∈ s.violations e role.rule ∨
        role.isRead e = true ∧ p ∈ (s.documentation e).structural := by
  rw [finds_iff, mem_documentation]
  simp [only, picked, single]

theorem mem_memberExtension {element : String} :
    p ∈ (s.memberExtension element e).structural ↔ s.Finds (.memberExtension element) e p := by
  rw [finds_of_documentation rfl rfl]
  simp [memberExtension, Role.isRead, Role.rule]

/-- What a member without a value type holds is not read. -/
theorem value_valueType (s : Source) (e : Element) :
    (s.valueType e).value = (e.attribute? "Type").bind ValueType.ofSchemaName? := by
  unfold valueType
  cases e.attribute? "Type" <;> rfl

theorem mem_column {owner : String} :
    p ∈ (s.column owner e).structural ↔ s.Finds (.member "Column") e p := by
  rw [finds_of_documentation rfl rfl]
  simp only [column, structural_bind, structural_check, structural_name, structural_valueType,
    List.nil_append, Role.isRead, Role.rule, value_valueType, List.mem_append]
  cases (e.attribute? "Type").bind ValueType.ofSchemaName? <;> simp

theorem mem_parameter {owner : Owner} :
    p ∈ (s.parameter owner e).structural ↔ s.Finds (.member "Parameter") e p := by
  rw [finds_of_documentation rfl rfl]
  simp only [parameter, structural_bind, structural_check, structural_name, structural_valueType,
    List.nil_append, Role.isRead, Role.rule, value_valueType, List.mem_append]
  cases (e.attribute? "Type").bind ValueType.ofSchemaName? <;> simp

theorem mem_property {owner : String} :
    p ∈ (s.property owner e).structural ↔ s.Finds .property e p := by
  have inner : (∃ name part, (name, part) ∈ Role.property.parts ∧
      ∃ c ∈ picked .property name e, s.Finds part c p) ↔
        (∃ d ∈ e.first? "Documentation", s.Finds .documentation d p) ∨
          (∃ d ∈ e.first? "Default", s.Finds .default d p) ∨
            ∃ c ∈ e.first? "Constraints", s.Finds .constraints c p := by
    simp [Role.parts, picked, Role.rule, ElementRule.property, or_and_right, exists_or]
  rw [finds_iff, inner, ← mem_documentation, ← mem_constraints]
  simp only [property, structural_bind, structural_check, structural_name, structural_valueType,
    structural_reportIf, List.nil_append, Role.isRead, Role.rule, value_valueType, List.mem_append]
  cases (e.attribute? "Type").bind ValueType.ofSchemaName? with
  | none => simp [Cause.isStructural]
  | some type =>
      simp only [value_name, Cause.isStructural, cause_problem, Bool.and_false, Bool.false_eq_true,
        ↓reduceIte, List.not_mem_nil, structural_bind, structural_references, value_references,
        structural_length, structural_boolean, structural_reportIf, structural_pure,
        List.append_nil, List.nil_append, List.mem_append, mem_default?, false_or,
        Option.isSome_some, true_and]
      exact or_congr_right or_rotate.symm

/-! ## What readers of lists find -/

/-- A member is read whether or not its name is taken. -/
theorem mem_memberList {α : Type} {kind : MemberKind α} {extending : Bool}
    {before : List α × List MemberExtension} {es : List Element}
    (taken : ∀ c member, (kind.repeated c member).cause.isStructural = false) :
    p ∈ (s.memberList kind extending before es).structural ↔ ∃ c ∈ es,
      c.name = kind.element ∧ p ∈ (kind.read c).structural ∨
        c.name = kind.extension ∧ extending = true ∧
          s.Finds (.memberExtension kind.extension) c p := by
  induction es generalizing before with
  | nil => exact ⟨nofun, fun ⟨_, inside, _⟩ => absurd inside List.not_mem_nil⟩
  | cons c rest ih =>
      rw [List.exists_mem_cons_iff]
      unfold memberList
      split
      next isMember =>
        have noExtension : c.name ≠ kind.extension := isMember ▸ kind.distinct
        rw [structural_bind, List.mem_append]
        refine or_congr ?_ ?_
        · simp [isMember, kind.distinct]
        · split
          next => exact ih
          next =>
            split
            next => simp [taken, ih]
            next => exact ih
      next notMember =>
        split
        next isExtension =>
          rw [structural_bind, List.mem_append, mem_memberExtension]
          refine or_congr ?_ ih
          simp only [Bool.and_eq_true, decide_eq_true_eq] at isExtension
          simp [isExtension, kind.distinct.symm]
        next other =>
          rw [ih]
          refine (or_iff_right ?_).symm
          rintro (⟨isMember, -⟩ | ⟨isExtension, extended, -⟩)
          · exact notMember isMember
          · exact other (by simp [isExtension, extended])

/-- An element that holds members, and extensions of them in an extension. -/
theorem finds_of_members {role part : Role} {element extension : String} {extending : Bool}
    (parts : role.parts = (element, part) ::
      if extending then [(extension, .memberExtension extension)] else [])
    (free : role.rule.single = []) (always : role.isRead e = true) :
    s.Finds role e p ↔ p ∈ s.violations e role.rule ∨ ∃ c ∈ e.elements,
      c.name = element ∧ s.Finds part c p ∨
        c.name = extension ∧ extending = true ∧
          s.Finds (.memberExtension extension) c p := by
  have listed (name : String) (q : Element → Prop) :
      (∃ c ∈ picked role name e, q c) ↔ ∃ c ∈ e.elements, c.name = name ∧ q c := by
    simp [picked, free, Element.named, and_assoc]
  rw [finds_iff]
  simp only [always, true_and, listed, parts, List.mem_cons, Prod.mk.injEq]
  refine or_congr_right ?_
  cases extending with
  | false => simp [and_left_comm]
  | true => simp [or_and_right, exists_or, and_or_left, and_left_comm]

theorem mem_properties {owner : String} {extending : Bool} :
    p ∈ (s.properties owner extending e).structural ↔
      ∃ c ∈ e.first? "Properties", s.Finds (.properties extending) c p := by
  have each (c : Element) : s.Finds (.properties extending) c p ↔
      p ∈ s.violations c (Role.properties extending).rule ∨
        p ∈ (s.propertyList owner extending ([], []) c.elements).structural := by
    have parts : (Role.properties extending).parts = ("Property", .property) ::
        if extending then [("ExtendProperty", .memberExtension "ExtendProperty")] else [] := rfl
    rw [propertyList_eq, mem_memberList fun _ _ => rfl,
      finds_of_members parts (by cases extending <;> rfl) rfl]
    simp only [propertyKind, mem_property]
  unfold properties
  cases e.first? "Properties" <;> simp [each, Role.rule]

theorem mem_parameters {owner : Owner} {extending : Bool} :
    p ∈ (s.parameters owner extending e).structural ↔
      ∃ c ∈ e.first? "Parameters", s.Finds (.parameters extending) c p := by
  have each (c : Element) : s.Finds (.parameters extending) c p ↔
      p ∈ s.violations c (Role.parameters extending).rule ∨
        p ∈ (s.parameterList owner extending ([], []) c.elements).structural := by
    have parts : (Role.parameters extending).parts = ("Parameter", .member "Parameter") ::
        if extending then [("ExtendParameter", .memberExtension "ExtendParameter")] else [] := rfl
    rw [parameterList_eq, mem_memberList fun _ _ => rfl,
      finds_of_members parts (by cases extending <;> rfl) rfl]
    simp only [parameterKind, mem_parameter]
  unfold parameters
  cases e.first? "Parameters" <;> simp [each, Role.rule]

theorem mem_columns {view : String} : p ∈ (s.columns view e).structural ↔
    ∃ c ∈ e.first? "Columns", s.Finds .columns c p := by
  have each (c : Element) : s.Finds .columns c p ↔ p ∈ s.violations c .columns ∨
      ∃ x ∈ c.named "Column", p ∈ (s.column view x).structural := by
    rw [finds_iff]
    simp [Role.parts, Role.isRead, picked, Role.rule, ElementRule.columns, ElementRule.container,
      mem_column]
  unfold columns
  cases e.first? "Columns" <;> simp [each]

theorem structural_enumValues (s : Source) (enum : String) (before : List EnumValue)
    (es : List Element) : (s.enumValues enum before es).structural =
      es.flatMap fun c => s.violations c .value := by
  induction es generalizing before with
  | nil => rfl
  | cons c rest ih =>
      simp only [enumValues, structural_bind, structural_check, structural_name,
        structural_integer, List.nil_append, List.flatMap_cons]
      refine congrArg _ ?_
      split
      next => exact ih before
      next =>
        split
        next => simp [ih, Cause.isStructural]
        next => exact ih _

theorem mem_values {enum : String} : p ∈ (s.values enum e).structural ↔
    ∃ v ∈ e.first? "Values", s.Finds .values v p := by
  have each (v : Element) : s.Finds .values v p ↔ p ∈ s.violations v .values ∨
      ∃ c ∈ v.named "Value", p ∈ s.violations c .value := by
    rw [finds_iff]
    simp [Role.parts, Role.isRead, picked, Role.rule, ElementRule.values, ElementRule.container,
      finds_of_leaf .value rfl]
  unfold values
  cases e.first? "Values" <;> simp [each, structural_enumValues]

/-! ## What readers of declarations find -/

theorem mem_enumType : p ∈ (s.enumType e).structural ↔ s.Finds .enum e p := by
  rw [finds_iff]
  simp [enumType, Role.parts, Role.isRead, picked, Role.rule, ElementRule.enum, mem_documentation,
    mem_values, or_and_right, exists_or]

theorem mem_statements_sqlAfter : p ∈ (s.statements e .sqlAfter).structural ↔
    ∃ c ∈ e.named "SqlAfter", s.Finds .sqlAfter c p :=
  mem_statements .sqlAfter rfl

theorem mem_itemTypeBody {name : String} {extending : Bool} :
    p ∈ (s.itemTypeBody name extending e).structural ↔
      ∃ child part, (child, part) ∈ Role.itemTypeParts extending ∧
        ∃ c ∈ if child ∈ ["Documentation", "Properties", "Indexes"]
          then (e.first? child).toList else e.named child, s.Finds part c p := by
  simp [itemTypeBody, itemExpressions, itemGrants, Role.itemTypeParts, mem_documentation,
    mem_expressions, mem_properties, mem_indexes, mem_statements_sqlAfter, or_and_right, exists_or]

theorem finds_of_itemTypeParts {role : Role} (name : String) {extending : Bool}
    (parts : role.parts = Role.itemTypeParts extending)
    (single : role.rule.single = ["Documentation", "Properties", "Indexes"])
    (always : role.isRead e = true) : s.Finds role e p ↔
      p ∈ s.violations e role.rule ∨ p ∈ (s.itemTypeBody name extending e).structural := by
  rw [finds_iff, mem_itemTypeBody]
  simp only [always, true_and, parts, picked, single]

theorem mem_itemType : p ∈ (s.itemType e).structural ↔ s.Finds .itemType e p := by
  rw [finds_of_itemTypeParts (s.name e).value rfl rfl rfl]
  simp [itemType, Role.rule]

theorem mem_itemTypeExtension :
    p ∈ (s.itemTypeExtension e).structural ↔ s.Finds .itemTypeExtension e p := by
  rw [finds_of_itemTypeParts (s.name e).value rfl rfl rfl]
  simp [itemTypeExtension, Role.rule]

theorem mem_implementation {name : String} : p ∈ (s.implementation name e).structural ↔
    ∃ i ∈ e.first? "Implementation", s.Finds .implementation i p := by
  unfold implementation
  cases e.first? "Implementation" with
  | none => simp [Cause.isStructural]
  | some i => simp [finds_of_leaf .implementation rfl, Role.rule]

theorem mem_view : p ∈ (s.view e).structural ↔ s.Finds .view e p := by
  rw [finds_iff]
  simp [view, Role.parts, Role.isRead, picked, Role.rule, ElementRule.view, mem_documentation,
    mem_expressions, mem_columns, mem_parameters, mem_implementation, or_and_right, exists_or,
    or_comm, or_left_comm]

theorem mem_viewExtension : p ∈ (s.viewExtension e).structural ↔ s.Finds .viewExtension e p := by
  rw [finds_iff]
  simp [viewExtension, Role.parts, Role.isRead, picked, Role.rule, ElementRule.extendView,
    mem_documentation, mem_expressions, or_and_right, exists_or]

theorem mem_right : p ∈ (s.right e).structural ↔ s.Finds .right e p := by
  rw [finds_iff]
  simp [right, Role.parts, Role.isRead, picked, Role.rule, ElementRule.right, mem_documentation,
    mem_expressions, mem_parameters, or_and_right, exists_or, or_comm, or_left_comm]

theorem mem_rightExtension :
    p ∈ (s.rightExtension e).structural ↔ s.Finds .rightExtension e p := by
  rw [finds_iff]
  simp [rightExtension, Role.parts, Role.isRead, picked, Role.rule, ElementRule.extendRight,
    mem_documentation, mem_expressions, mem_parameters, or_and_right, exists_or, or_comm,
    or_left_comm]

theorem mem_declaration {file : SchemaFile} : p ∈ (s.declaration file e).structural ↔
    ∃ part, (e.name, part) ∈ Role.schemaFile.parts ∧ s.Finds part e p := by
  unfold declaration
  split
  next named => simp [named, Role.parts, mem_enumType]
  next named => simp [named, Role.parts, mem_itemType]
  next named => simp [named, Role.parts, mem_view]
  next named => simp [named, Role.parts, mem_right]
  next named => simp [named, Role.parts, mem_itemTypeExtension]
  next named => simp [named, Role.parts, mem_viewExtension]
  next named => simp [named, Role.parts, mem_rightExtension]
  next named => simp [named, Role.parts, finds_of_leaf .sqlBefore rfl, Role.rule]
  next named => simp [named, Role.parts, finds_of_leaf .sqlAfter rfl, Role.rule]
  next => simp_all [Role.parts]

theorem mem_declarations {file : SchemaFile} {es : List Element} :
    p ∈ (s.declarations file es).structural ↔
      ∃ c ∈ es, ∃ part, (c.name, part) ∈ Role.schemaFile.parts ∧ s.Finds part c p := by
  induction es generalizing file with
  | nil => simp [declarations]
  | cons c rest ih =>
      rw [declarations, structural_bind, List.mem_append, mem_declaration, ih,
        List.exists_mem_cons_iff]

/-- Below the right root, a structural problem is a flaw of an element that the pass reads. -/
theorem mem_file (rooted : s.document.root.tag.name = ⟨some schemaNamespace, "StoreSchema"⟩) :
    p ∈ s.file.structural ↔ ∃ x, Visits s.document.root x ∧ p ∈ s.violations x.2 x.1.rule := by
  change _ ↔ s.Finds .schemaFile s.document.root p
  have free (name : String) (q : Element → Prop) :
      (∃ c ∈ picked .schemaFile name s.document.root, q c) ↔
        ∃ c ∈ s.document.root.elements, c.name = name ∧ q c := by
    simp [picked, Role.rule, ElementRule.storeSchema, ElementRule.container, Element.named,
      and_assoc]
  have read : s.file = (do
      s.check s.document.root .storeSchema
      s.declarations (.empty s.fileName) s.document.root.elements) :=
    if_pos rooted
  rw [finds_iff, read, structural_bind, structural_check, List.mem_append, mem_declarations]
  refine or_congr_right ?_
  simp only [free, Role.isRead, true_and]
  constructor
  · rintro ⟨c, inside, part, listed, found⟩
    exact ⟨c.name, part, listed, c, inside, rfl, found⟩
  · rintro ⟨name, part, listed, c, inside, rfl, found⟩
    exact ⟨c, inside, part, listed, found⟩

end Source

end LearningStore.Schema
