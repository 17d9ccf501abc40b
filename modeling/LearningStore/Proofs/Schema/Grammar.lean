import LearningStore.Proofs.Schema.Reading

/-!
# Accepted files follow the grammar

A rule says what one element may have.  Which rule an element is under depends on the part
that it plays in the file, and so does the part of each of its children.  A clean pass over a
file has checked every element but documentation markup against the rule of its part.
-/

namespace LearningStore.Schema

open LearningStore.Text
open LearningStore.Value
open LearningStore.Xml

/-! ## Parts -/

/-- The parts that the elements of a schema file play.  Elements of one name can play
different parts: properties in an item type are not extended, those in an extension may be. -/
inductive Role where
  | schemaFile
  | enum
  | values
  | value
  | itemType
  | itemTypeExtension
  | properties (extending : Bool)
  | property
  | default
  | constraints
  | constraint
  | indexes
  | index
  | view
  | viewExtension
  | columns
  | implementation
  | right
  | rightExtension
  | parameters (extending : Bool)
  | member (name : String)
  | memberExtension (name : String)
  | grant (name : String)
  | expression
  | sqlBefore
  | sqlAfter
  | documentation
deriving DecidableEq, Repr

namespace Role

/-- The rule that an element is under. -/
def rule : Role → ElementRule
  | schemaFile => .storeSchema
  | enum => .enum
  | values => .values
  | value => .value
  | itemType => .itemType
  | itemTypeExtension => .extendItemType
  | properties extending => if extending then .extendProperties else .properties
  | property => .property
  | default => .default
  | constraints => .constraints
  | constraint => .constraint
  | indexes => .indexes
  | index => .index
  | view => .view
  | viewExtension => .extendView
  | columns => .columns
  | implementation => .implementation
  | right => .right
  | rightExtension => .extendRight
  | parameters extending => if extending then .extendParameters else .parameters
  | member name => .typedMember name
  | memberExtension name => .extendMember name
  | grant name => .grant name
  | expression => .expression
  | sqlBefore => .sqlBefore
  | sqlAfter => .sqlAfter
  | documentation => .documentation

/-- The parts in an item type, or in an extension of one. -/
def itemTypeParts (extending : Bool) : List (String × Role) :=
  [("Documentation", documentation), ("GrantQueryRight", grant "GrantQueryRight"),
    ("GrantAddRight", grant "GrantAddRight"), ("GrantUpdateRight", grant "GrantUpdateRight"),
    ("GrantDeleteRight", grant "GrantDeleteRight"), ("Properties", properties extending),
    ("Indexes", indexes), ("SqlAfter", sqlAfter)]

/-- The children of an element by name, with the parts that they play. -/
def parts : Role → List (String × Role)
  | schemaFile =>
      [("Enum", enum), ("ItemType", itemType), ("View", view), ("Right", right),
        ("ExtendItemType", itemTypeExtension), ("ExtendView", viewExtension),
        ("ExtendRight", rightExtension), ("SqlBefore", sqlBefore), ("SqlAfter", sqlAfter)]
  | enum => [("Documentation", documentation), ("Values", values)]
  | values => [("Value", value)]
  | itemType => itemTypeParts false
  | itemTypeExtension => itemTypeParts true
  | properties extending =>
      ("Property", property) ::
        if extending then [("ExtendProperty", memberExtension "ExtendProperty")] else []
  | property =>
      [("Documentation", documentation), ("Default", default), ("Constraints", constraints)]
  | constraints => [("Constraint", constraint)]
  | indexes => [("Index", index)]
  | view =>
      [("Documentation", documentation), ("GrantQueryRight", grant "GrantQueryRight"),
        ("Columns", columns), ("Parameters", parameters false),
        ("Implementation", implementation)]
  | viewExtension =>
      [("Documentation", documentation), ("GrantQueryRight", grant "GrantQueryRight")]
  | columns => [("Column", member "Column")]
  | right =>
      [("Documentation", documentation), ("Grant", grant "Grant"),
        ("Parameters", parameters false)]
  | rightExtension =>
      [("Documentation", documentation), ("Grant", grant "Grant"),
        ("Parameters", parameters true)]
  | parameters extending =>
      ("Parameter", member "Parameter") ::
        if extending then [("ExtendParameter", memberExtension "ExtendParameter")] else []
  | member _ => [("Documentation", documentation)]
  | memberExtension _ => [("Documentation", documentation)]
  | grant _ => [("Expression", expression)]
  | value | default | constraint | index | implementation | expression | sqlBefore | sqlAfter
  | documentation => []

/-- The children that hold documentation markup, in which everything is allowed. -/
def markup : Role → List String
  | value => ["Documentation"]
  | documentation => ["Summary", "Remarks"]
  | _ => []

/-- The children that a rule allows play a part or hold markup. -/
theorem children_rule (role : Role) :
    role.rule.children = role.parts.map Prod.fst ++ role.markup := by
  cases role with
  | properties extending => cases extending <;> rfl
  | parameters extending => cases extending <;> rfl
  | _ => rfl

end Role

/-! ## Elements under a rule -/

/-- Everything that a rule asks of one element.  Attributes in a namespace are not its
business. -/
structure Obeys (rule : ElementRule) (e : Element) : Prop where
  attributes : ∀ a ∈ e.tag.attributes, a.name.uri = none →
    a.name.localName ∈ rule.required ∨ a.name.localName ∈ rule.optional
  required : ∀ name ∈ rule.required, (e.attribute? name).isSome
  children : ∀ c ∈ e.elements, c.name ∈ rule.children ∧
    (c.tag.name.uri = some schemaNamespace ∨ c.name ∈ rule.unqualified)
  single : ∀ name ∈ rule.single, (e.named name).length ≤ 1
  text : rule.text = false →
    ∀ span content, .text span content ∈ e.children → ∀ c ∈ content, isBlank c = true

/-- An element that obeys the rule of its part, with children that do the same as far down as
there is no documentation markup. -/
inductive Conforms : Role → Element → Prop
  | intro {role : Role} {e : Element} (obeys : Obeys role.rule e)
      (known : ∀ c ∈ e.elements, c.name ∈ role.markup ∨ ∃ part, (c.name, part) ∈ role.parts)
      (inner : ∀ c ∈ e.elements, ∀ part, (c.name, part) ∈ role.parts → Conforms part c) :
      Conforms role e

namespace Conforms

/-- The rule of the element leaves no child without a part. -/
theorem of_inner (role : Role) {e : Element} (obeys : Obeys role.rule e)
    (inner : ∀ c ∈ e.elements, ∀ part, (c.name, part) ∈ role.parts → Conforms part c) :
    Conforms role e := by
  refine .intro obeys (fun c inside => ?_) inner
  have allowed := (obeys.children c inside).1
  rw [role.children_rule, List.mem_append] at allowed
  rcases allowed with part | markup
  · obtain ⟨⟨name, part⟩, listed, same⟩ := List.mem_map.mp part
    exact .inr ⟨part, same ▸ listed⟩
  · exact .inl markup

/-- An element without parts has to obey its own rule only. -/
theorem of_leaf {role : Role} {e : Element} (leaf : role.parts = [])
    (obeys : Obeys role.rule e) : Conforms role e := by
  refine .of_inner role obeys fun c _ part listed => ?_
  rw [leaf] at listed
  cases listed

end Conforms

/-- There is nothing but the first child of a name that may come once only. -/
theorem Obeys.named_eq {rule : ElementRule} {e : Element} (h : Obeys rule e) {name : String}
    (single : name ∈ rule.single) : e.named name = (e.first? name).toList := by
  have few := h.single name single
  have first : e.first? name = (e.named name).head? := List.head?_filter.symm
  rw [first]
  cases found : e.named name with
  | nil => rfl
  | cons c rest =>
      rw [found] at few
      have alone : rest = [] := List.eq_nil_of_length_eq_zero (by simpa using few)
      rw [alone]
      rfl

theorem Obeys.first?_eq_some {rule : ElementRule} {e c : Element} (h : Obeys rule e)
    (inside : c ∈ e.elements) {name : String} (named : c.name = name)
    (single : name ∈ rule.single) : e.first? name = some c := by
  have listed : c ∈ e.named name := List.mem_filter.mpr ⟨inside, beq_iff_eq.mpr named⟩
  rw [h.named_eq single] at listed
  exact Option.mem_toList.mp listed

/-! ## Checks -/

namespace Source

variable {s : Source} {rule : ElementRule}

theorem attributes_of_strayAttributes {e : Element} (none_stray : s.strayAttributes e rule = []) :
    ∀ a ∈ e.tag.attributes, a.name.uri = none →
      a.name.localName ∈ rule.required ∨ a.name.localName ∈ rule.optional := by
  intro a inside plain
  have allowed := List.filter_eq_nil_iff.mp (List.map_eq_nil_iff.mp none_stray) a inside
  rw [plain, Option.isNone_none, Bool.true_and, Bool.not_eq_true', Bool.not_eq_false,
    ElementRule.allowsAttribute, Bool.or_eq_true] at allowed
  exact allowed.imp List.contains_iff_mem.mp List.contains_iff_mem.mp

section Children

variable {tag inner : Tag} {seen : List String} {children nodes : List Node}

theorem elements_cons_element :
    (Element.mk tag (.element inner children :: nodes)).elements =
      ⟨inner, children⟩ :: (Element.mk tag nodes).elements := rfl

/-- A child element is allowed where it stands, and is the first one of its name if that may
come once only. -/
theorem strayChildren_element_eq_nil
    (none_stray : s.strayChildren rule seen (.element inner children :: nodes) = []) :
    rule.allowsChild inner.name.localName (inner.name.uri == some schemaNamespace) = true ∧
      (inner.name.localName ∈ rule.single → inner.name.localName ∉ seen) ∧
      ∃ later, s.strayChildren rule later nodes = [] ∧ ∀ name ∈ rule.single,
        name ∈ later ↔ name = inner.name.localName ∨ name ∈ seen := by
  unfold strayChildren at none_stray
  dsimp only at none_stray
  split at none_stray
  next => cases none_stray
  next allowed =>
    refine ⟨by simpa using allowed, ?_⟩
    split at none_stray
    next free =>
      have unlimited : inner.name.localName ∉ rule.single := by simpa using free
      refine ⟨fun single => absurd single unlimited, seen, none_stray, fun name single => ?_⟩
      have other : name ≠ inner.name.localName := fun same => unlimited (same ▸ single)
      exact (or_iff_right other).symm
    next =>
      split at none_stray
      next => cases none_stray
      next fresh =>
        exact ⟨fun _ => by simpa using fresh, _, none_stray, fun _ _ => List.mem_cons⟩

theorem strayChildren_text_eq_nil {span : Span} {content : List Char}
    (none_stray : s.strayChildren rule seen (.text span content :: nodes) = []) :
    (rule.text = false → ∀ c ∈ content, isBlank c = true) ∧
      s.strayChildren rule seen nodes = [] := by
  unfold strayChildren at none_stray
  split at none_stray
  next => cases none_stray
  next blank => exact ⟨fun textless => by simpa [textless] using blank, none_stray⟩

theorem children_of_strayChildren (none_stray : s.strayChildren rule seen nodes = []) :
    ∀ c ∈ (Element.mk tag nodes).elements, c.name ∈ rule.children ∧
      (c.tag.name.uri = some schemaNamespace ∨ c.name ∈ rule.unqualified) := by
  induction nodes generalizing seen with
  | nil => exact fun _ inside => nomatch inside
  | cons node rest ih =>
      cases node with
      | element inner children =>
          obtain ⟨allowed, -, later, clean, -⟩ := strayChildren_element_eq_nil none_stray
          rw [elements_cons_element, List.forall_mem_cons]
          simp only [ElementRule.allowsChild, Bool.and_eq_true, Bool.or_eq_true,
            List.contains_iff_mem, beq_iff_eq] at allowed
          exact ⟨allowed, ih clean⟩
      | text span content => exact ih (strayChildren_text_eq_nil none_stray).2
      | comment span => exact ih none_stray
      | instruction span => exact ih none_stray

/-- A name that has been seen does not come again, and another one comes once. -/
theorem single_of_strayChildren (none_stray : s.strayChildren rule seen nodes = [])
    {name : String} (single : name ∈ rule.single) :
    ((Element.mk tag nodes).named name).length ≤ if name ∈ seen then 0 else 1 := by
  induction nodes generalizing seen with
  | nil => exact Nat.zero_le _
  | cons node rest ih =>
      cases node with
      | element inner children =>
          obtain ⟨-, fresh, later, clean, seen_later⟩ := strayChildren_element_eq_nil none_stray
          have few := ih clean
          by_cases same : inner.name.localName = name
          · subst same
            have first : (Element.mk tag (.element inner children :: rest)).named
                inner.name.localName =
                  ⟨inner, children⟩ :: (Element.mk tag rest).named inner.name.localName :=
              List.filter_cons_of_pos (beq_self_eq_true inner.name.localName)
            rw [if_pos ((seen_later _ single).mpr (.inl rfl))] at few
            rw [first, if_neg (fresh single)]
            exact Nat.succ_le_succ few
          · have skipped : (Element.mk tag (.element inner children :: rest)).named name =
                (Element.mk tag rest).named name :=
              List.filter_cons_of_neg fun found => same (beq_iff_eq.mp found)
            have unchanged : name ∈ later ↔ name ∈ seen :=
              (seen_later name single).trans (or_iff_right (Ne.symm same))
            rw [skipped]
            simpa only [unchanged] using few
      | text span content => exact ih (strayChildren_text_eq_nil none_stray).2
      | comment span => exact ih none_stray
      | instruction span => exact ih none_stray

theorem text_of_strayChildren (none_stray : s.strayChildren rule seen nodes = [])
    (textless : rule.text = false) :
    ∀ span content, .text span content ∈ nodes → ∀ c ∈ content, isBlank c = true := by
  induction nodes generalizing seen with
  | nil => exact fun _ _ inside => nomatch inside
  | cons node rest ih =>
      intro span content inside
      cases node with
      | element inner children =>
          obtain ⟨-, -, later, clean, -⟩ := strayChildren_element_eq_nil none_stray
          exact ih clean span content (by simpa using inside)
      | text place written =>
          obtain ⟨blank, clean⟩ := strayChildren_text_eq_nil none_stray
          rcases List.mem_cons.mp inside with same | later
          · cases same
            exact blank textless
          · exact ih clean span content later
      | comment place => exact ih none_stray span content (by simpa using inside)
      | instruction place => exact ih none_stray span content (by simpa using inside)

end Children

variable {e : Element}

/-- An element that its rule forbids nothing of obeys the rule. -/
theorem obeys_of_violations (conforms : s.violations e rule = []) : Obeys rule e := by
  obtain ⟨ofTag, ofChildren⟩ := List.append_eq_nil_iff.mp conforms
  exact {
    attributes := attributes_of_strayAttributes (List.append_eq_nil_iff.mp ofTag).1
    required := fun _ required => attribute_isSome conforms required
    children := children_of_strayChildren ofChildren
    single := fun _ single => single_of_strayChildren ofChildren single
    text := text_of_strayChildren ofChildren }

/-! ## Elements inside members -/

theorem conforms_documentation {d : Element} (clean : (s.documentation e).Clean)
    (found : e.first? "Documentation" = some d) : Conforms .documentation d := by
  simp only [documentation, found, Checked.clean_bind, clean_check] at clean
  exact .of_leaf rfl (obeys_of_violations clean.1)

theorem obeys_of_statement (clean : (s.statement e rule).Clean) : Obeys rule e := by
  simp only [statement, Checked.clean_bind, clean_check] at clean
  exact obeys_of_violations clean.1

theorem clean_statement_of_named {c : Element} (clean : (s.statements e rule).Clean)
    (inside : c ∈ e.elements) (named : c.name = rule.name) : (s.statement c rule).Clean :=
  Checked.clean_eachSome.mp clean c (List.mem_filter.mpr ⟨inside, beq_iff_eq.mpr named⟩)

/-- An element that holds statements of one kind conforms if it and they were checked. -/
theorem conforms_of_statements {role : Role} (part : Role) (obeys : Obeys role.rule e)
    (only : role.parts = [(part.rule.name, part)]) (leaf : part.parts = [])
    (clean : (s.statements e part.rule).Clean) : Conforms role e := by
  refine .of_inner role obeys fun c inside other listed => ?_
  rw [only, List.mem_singleton, Prod.mk.injEq] at listed
  obtain ⟨named, rfl⟩ := listed
  exact .of_leaf leaf (obeys_of_statement (clean_statement_of_named clean inside named))

theorem conforms_grant {grant : String} {g : Element} (clean : (s.expressions e grant).Clean)
    (inside : g ∈ e.elements) (named : g.name = grant) : Conforms (.grant grant) g := by
  simp only [expressions, Checked.clean_bind, Checked.clean_each, clean_check] at clean
  obtain ⟨conforms, statements⟩ :=
    clean.1 g (List.mem_filter.mpr ⟨inside, beq_iff_eq.mpr named⟩)
  exact conforms_of_statements .expression (obeys_of_violations conforms) rfl rfl
    statements

theorem conforms_constraints {c : Element} (clean : (s.constraints e).Clean)
    (found : e.first? "Constraints" = some c) : Conforms .constraints c := by
  simp only [constraints, found, Checked.clean_bind, clean_check] at clean
  exact conforms_of_statements .constraint (obeys_of_violations clean.1) rfl rfl
    clean.2

theorem conforms_indexes {i : Element} (clean : (s.indexes e).Clean)
    (found : e.first? "Indexes" = some i) : Conforms .indexes i := by
  simp only [indexes, found, Checked.clean_bind, clean_check] at clean
  exact conforms_of_statements .index (obeys_of_violations clean.1) rfl rfl clean.2

theorem conforms_default {subject : Subject} {type : ValueType} {nullable : Bool}
    {d : Element} (clean : (s.default? e subject type nullable).Clean)
    (found : e.first? "Default" = some d) : Conforms .default d := by
  simp only [default?, found, defaultValue, Checked.clean_bind, clean_check] at clean
  exact .of_leaf rfl (obeys_of_violations clean.1)

/-! ## Members -/

/-- A required number is there and is read. -/
theorem integer_eq_some {name : String} (conforms : s.violations e rule = [])
    (required : name ∈ rule.required) (clean : (s.integer e name).Clean) :
    ∃ text n, e.attribute? name = some text ∧ Integer.read? (trim text.toList) = some n ∧
      (s.integer e name).value = some n := by
  obtain ⟨text, found⟩ := Option.isSome_iff_exists.mp (attribute_isSome conforms required)
  simp only [integer, found, Checked.clean_bind, Checked.clean_reportIf,
    Option.isNone_eq_false_iff] at clean
  obtain ⟨n, read⟩ := Option.isSome_iff_exists.mp clean.1
  refine ⟨text, n, found, read, ?_⟩
  rw [integer, found]
  exact read

/-- A required type is there and is known. -/
theorem valueType_eq_some (conforms : s.violations e rule = [])
    (required : "Type" ∈ rule.required) (clean : (s.valueType e).Clean) :
    ∃ name type, e.attribute? "Type" = some name ∧ ValueType.ofSchemaName? name = some type ∧
      (s.valueType e).value = some type := by
  obtain ⟨name, found⟩ := Option.isSome_iff_exists.mp (attribute_isSome conforms required)
  simp only [valueType, found, Checked.clean_bind, Checked.clean_reportIf,
    Option.isNone_eq_false_iff] at clean
  obtain ⟨type, known⟩ := Option.isSome_iff_exists.mp clean.1
  refine ⟨name, type, found, known, ?_⟩
  rw [valueType, found]
  exact known

/-- An element that holds nothing but documentation. -/
theorem conforms_of_documentation {role : Role} (obeys : Obeys role.rule e)
    (only : role.parts = [("Documentation", .documentation)])
    (single : role.rule.single = ["Documentation"]) (clean : (s.documentation e).Clean) :
    Conforms role e := by
  refine .of_inner role obeys fun c inside part listed => ?_
  rw [only, List.mem_singleton, Prod.mk.injEq] at listed
  obtain ⟨named, rfl⟩ := listed
  have first := obeys.first?_eq_some inside named (single ▸ List.mem_singleton.mpr rfl)
  exact conforms_documentation clean first

theorem conforms_memberExtension {element : String}
    (clean : (s.memberExtension element e).Clean) : Conforms (.memberExtension element) e := by
  simp only [memberExtension, Checked.clean_bind, clean_check] at clean
  obtain ⟨conforms, -, documented, -⟩ := clean
  exact conforms_of_documentation (obeys_of_violations conforms) rfl rfl documented

theorem conforms_column {owner : String} (clean : (s.column owner e).Clean) :
    Conforms (.member "Column") e := by
  simp only [column, Checked.clean_bind, clean_check] at clean
  obtain ⟨conforms, -, typed, clean⟩ := clean
  obtain ⟨-, type, -, -, found⟩ := valueType_eq_some conforms (by decide) typed
  rw [found] at clean
  simp only [Checked.clean_bind] at clean
  exact conforms_of_documentation (obeys_of_violations conforms) rfl rfl clean.2.1

theorem conforms_parameter {owner : Owner} (clean : (s.parameter owner e).Clean) :
    Conforms (.member "Parameter") e := by
  simp only [parameter, Checked.clean_bind, clean_check] at clean
  obtain ⟨conforms, -, typed, clean⟩ := clean
  obtain ⟨-, type, -, -, found⟩ := valueType_eq_some conforms (by decide) typed
  rw [found] at clean
  simp only [Checked.clean_bind] at clean
  exact conforms_of_documentation (obeys_of_violations conforms) rfl rfl clean.2.1

theorem conforms_property {owner : String} (clean : (s.property owner e).Clean) :
    Conforms .property e := by
  simp only [property, Checked.clean_bind, clean_check] at clean
  obtain ⟨conforms, -, -, typed, clean⟩ := clean
  obtain ⟨-, type, -, -, found⟩ := valueType_eq_some conforms (by decide) typed
  rw [found] at clean
  simp only [Checked.clean_bind] at clean
  obtain ⟨-, -, -, -, -, -, -, defaulted, constrained, documented, -⟩ := clean
  have obeys := obeys_of_violations conforms
  refine .of_inner .property obeys fun c inside part listed => ?_
  simp only [Role.parts, List.mem_cons, Prod.mk.injEq, List.not_mem_nil, or_false] at listed
  rcases listed with ⟨named, rfl⟩ | ⟨named, rfl⟩ | ⟨named, rfl⟩
  · exact conforms_documentation documented (obeys.first?_eq_some inside named (by decide))
  · exact conforms_default defaulted (obeys.first?_eq_some inside named (by decide))
  · exact conforms_constraints constrained (obeys.first?_eq_some inside named (by decide))

/-! ## Lists of members -/

/-- How the members of one kind are read that stand in one list with extensions of such
members. -/
structure MemberKind (α : Type) where
  element : String
  extension : String
  read : Element → Checked (Option α)
  taken : List α → α → Bool
  repeated : Element → α → Problem
  distinct : element ≠ extension

/-- The members and the extensions in a list of elements, after those in `before`. -/
def memberList {α : Type} (s : Source) (kind : MemberKind α) (extending : Bool)
    (before : List α × List MemberExtension) :
    List Element → Checked (List α × List MemberExtension)
  | [] => pure before
  | e :: rest => do
      if e.name = kind.element then
        match ← kind.read e with
        | none => memberList s kind extending before rest
        | some member =>
            if kind.taken before.1 member then
              .report [kind.repeated e member]
              memberList s kind extending before rest
            else memberList s kind extending (before.1 ++ [member], before.2) rest
      else if e.name = kind.extension && extending then
        let extension ← s.memberExtension kind.extension e
        memberList s kind extending (before.1, before.2 ++ [extension]) rest
      else memberList s kind extending before rest

/-- The properties of an item type. -/
def propertyKind (s : Source) (owner : String) : MemberKind (Declared Property) where
  element := "Property"
  extension := "ExtendProperty"
  read := s.property owner
  taken := fun before d => before.any fun p => p.item.name == d.item.name
  repeated := fun e d => s.problem e (.propertyRepeated owner d.item.name)
  distinct := by decide

/-- The parameters of a view or a right. -/
def parameterKind (s : Source) (owner : Owner) : MemberKind (Declared Parameter) where
  element := "Parameter"
  extension := "ExtendParameter"
  read := s.parameter owner
  taken := fun before d => isRepeated owner before d.item.name
  repeated := fun e d => s.problem e (.parameterRepeated owner.name d.item.name)
  distinct := by decide

theorem propertyList_eq (owner : String) (extending : Bool)
    (before : List (Declared Property) × List MemberExtension) (es : List Element) :
    s.propertyList owner extending before es =
      s.memberList (s.propertyKind owner) extending before es := by
  induction es generalizing before with
  | nil => rfl
  | cons e rest ih =>
      simp only [propertyList, memberList, ih]
      refine ite_congr rfl (fun _ => congrArg _ (funext fun found => ?_)) fun _ => rfl
      cases found <;> rfl

theorem parameterList_eq (owner : Owner) (extending : Bool)
    (before : List (Declared Parameter) × List MemberExtension) (es : List Element) :
    s.parameterList owner extending before es =
      s.memberList (s.parameterKind owner) extending before es := by
  induction es generalizing before with
  | nil => rfl
  | cons e rest ih =>
      simp only [parameterList, memberList, ih]
      refine ite_congr rfl (fun _ => congrArg _ (funext fun found => ?_)) fun _ => rfl
      cases found <;> rfl

/-- Every member in a list was read without problems, and so was every extension of one. -/
theorem clean_of_memberList {α : Type} {kind : MemberKind α} {extending : Bool}
    {before : List α × List MemberExtension} {es : List Element}
    (clean : (s.memberList kind extending before es).Clean) :
    ∀ c ∈ es, (c.name = kind.element → (kind.read c).Clean) ∧
      (c.name = kind.extension → extending = true →
        (s.memberExtension kind.extension c).Clean) := by
  induction es generalizing before with
  | nil => exact fun _ inside => nomatch inside
  | cons e rest ih =>
      rw [List.forall_mem_cons]
      unfold memberList at clean
      split at clean
      next isMember =>
        simp only [Checked.clean_bind] at clean
        obtain ⟨read, clean⟩ := clean
        refine ⟨⟨fun _ => read, fun other => ?_⟩, ?_⟩
        · exact absurd (isMember.symm.trans other) kind.distinct
        · split at clean
          next => exact ih clean
          next =>
            split at clean
            next => simp at clean
            next => exact ih clean
      next notMember =>
        split at clean
        next isExtension =>
          simp only [Checked.clean_bind] at clean
          exact ⟨⟨fun other => absurd other notMember, fun _ _ => clean.1⟩, ih clean.2⟩
        next other =>
          refine ⟨⟨fun named => absurd named notMember, fun named extended => ?_⟩, ih clean⟩
          exact absurd (by simp [named, extended]) other

theorem conforms_properties {owner : String} {extending : Bool} {p : Element}
    (clean : (s.properties owner extending e).Clean) (found : e.first? "Properties" = some p) :
    Conforms (.properties extending) p := by
  simp only [properties, found, Checked.clean_bind, clean_check, propertyList_eq] at clean
  have each := clean_of_memberList clean.2
  refine .of_inner (.properties extending) (obeys_of_violations clean.1) ?_
  intro c inside part listed
  cases extending with
  | false =>
      obtain ⟨named, rfl⟩ := Prod.mk.inj (List.mem_singleton.mp listed)
      exact conforms_property ((each c inside).1 named)
  | true =>
      rcases List.mem_cons.mp listed with same | listed
      · obtain ⟨named, rfl⟩ := Prod.mk.inj same
        exact conforms_property ((each c inside).1 named)
      · obtain ⟨named, rfl⟩ := Prod.mk.inj (List.mem_singleton.mp listed)
        exact conforms_memberExtension ((each c inside).2 named rfl)

theorem conforms_parameters {owner : Owner} {extending : Bool} {p : Element}
    (clean : (s.parameters owner extending e).Clean) (found : e.first? "Parameters" = some p) :
    Conforms (.parameters extending) p := by
  simp only [parameters, found, Checked.clean_bind, clean_check, parameterList_eq] at clean
  have each := clean_of_memberList clean.2
  refine .of_inner (.parameters extending) (obeys_of_violations clean.1) ?_
  intro c inside part listed
  cases extending with
  | false =>
      obtain ⟨named, rfl⟩ := Prod.mk.inj (List.mem_singleton.mp listed)
      exact conforms_parameter ((each c inside).1 named)
  | true =>
      rcases List.mem_cons.mp listed with same | listed
      · obtain ⟨named, rfl⟩ := Prod.mk.inj same
        exact conforms_parameter ((each c inside).1 named)
      · obtain ⟨named, rfl⟩ := Prod.mk.inj (List.mem_singleton.mp listed)
        exact conforms_memberExtension ((each c inside).2 named rfl)

/-- Every value in a list was checked, and its name and its number were read without
problems. -/
theorem clean_of_enumValues {enum : String} {before : List EnumValue} {es : List Element}
    (clean : (s.enumValues enum before es).Clean) :
    ∀ c ∈ es, s.violations c .value = [] ∧ (s.integer c "Value").Clean := by
  induction es generalizing before with
  | nil => exact fun _ inside => nomatch inside
  | cons e rest ih =>
      rw [List.forall_mem_cons]
      simp only [enumValues, Checked.clean_bind, clean_check] at clean
      obtain ⟨conforms, -, counted, clean⟩ := clean
      refine ⟨⟨conforms, counted⟩, ?_⟩
      split at clean
      next => exact ih clean
      next =>
        split at clean
        next => simp at clean
        next => exact ih clean

theorem conforms_values {enum : String} {v : Element} (clean : (s.values enum e).Clean)
    (found : e.first? "Values" = some v) : Conforms .values v := by
  simp only [values, found, Checked.clean_bind, clean_check] at clean
  refine .of_inner .values (obeys_of_violations clean.1) fun c inside part listed => ?_
  obtain ⟨named, rfl⟩ := Prod.mk.inj (List.mem_singleton.mp listed)
  have listed : c ∈ v.named "Value" := List.mem_filter.mpr ⟨inside, beq_iff_eq.mpr named⟩
  exact .of_leaf rfl (obeys_of_violations (clean_of_enumValues clean.2 c listed).1)

theorem conforms_columns {view : String} {v : Element} (clean : (s.columns view e).Clean)
    (found : e.first? "Columns" = some v) : Conforms .columns v := by
  simp only [columns, found, Checked.clean_bind, clean_check, Checked.clean_eachSome] at clean
  refine .of_inner .columns (obeys_of_violations clean.1) fun c inside part listed => ?_
  obtain ⟨named, rfl⟩ := Prod.mk.inj (List.mem_singleton.mp listed)
  exact conforms_column (clean.2 c (List.mem_filter.mpr ⟨inside, beq_iff_eq.mpr named⟩))

/-! ## Elements of a file -/

theorem conforms_enumType (clean : (s.enumType e).Clean) : Conforms .enum e := by
  simp only [enumType, Checked.clean_bind, clean_check] at clean
  obtain ⟨conforms, -, documented, valued, -⟩ := clean
  have obeys := obeys_of_violations conforms
  refine .of_inner .enum obeys fun c inside part listed => ?_
  simp only [Role.parts, List.mem_cons, Prod.mk.injEq, List.not_mem_nil, or_false] at listed
  rcases listed with ⟨named, rfl⟩ | ⟨named, rfl⟩
  · exact conforms_documentation documented (obeys.first?_eq_some inside named (by decide))
  · exact conforms_values valued (obeys.first?_eq_some inside named (by decide))

/-- The parts of an item type and of an extension of one are the same, apart from what its
properties may be. -/
theorem conforms_of_itemTypeBody {role : Role} {name : String} {extending : Bool}
    (obeys : Obeys role.rule e) (same : role.parts = Role.itemTypeParts extending)
    (single : role.rule.single = ["Documentation", "Properties", "Indexes"])
    (clean : (s.itemTypeBody name extending e).Clean) : Conforms role e := by
  simp only [itemTypeBody, Checked.clean_bind, Checked.clean_each] at clean
  obtain ⟨documented, granted, propertied, indexed, followed, -⟩ := clean
  have grants (right : ItemRight) {grant : String} (known : (right, grant) ∈ itemGrants) :
      (s.expressions e grant).Clean := by
    have read := granted (right, grant) known
    simp only [itemExpressions, Checked.clean_bind] at read
    exact read.1
  refine .of_inner role obeys fun c inside part listed => ?_
  have first {n : String} (named : c.name = n)
      (once : n ∈ ["Documentation", "Properties", "Indexes"]) : e.first? n = some c :=
    obeys.first?_eq_some inside named (single ▸ once)
  rw [same] at listed
  simp only [Role.itemTypeParts, List.mem_cons, Prod.mk.injEq, List.not_mem_nil,
    or_false] at listed
  rcases listed with ⟨named, rfl⟩ | ⟨named, rfl⟩ | ⟨named, rfl⟩ | ⟨named, rfl⟩ | ⟨named, rfl⟩ |
    ⟨named, rfl⟩ | ⟨named, rfl⟩ | ⟨named, rfl⟩
  · exact conforms_documentation documented (first named (by decide))
  · exact conforms_grant (grants .query (by decide)) inside named
  · exact conforms_grant (grants .add (by decide)) inside named
  · exact conforms_grant (grants .update (by decide)) inside named
  · exact conforms_grant (grants .delete (by decide)) inside named
  · exact conforms_properties propertied (first named (by decide))
  · exact conforms_indexes indexed (first named (by decide))
  · exact .of_leaf rfl (obeys_of_statement (clean_statement_of_named followed inside named))

theorem conforms_itemType (clean : (s.itemType e).Clean) : Conforms .itemType e := by
  simp only [itemType, Checked.clean_bind, clean_check] at clean
  obtain ⟨conforms, -, clean, -⟩ := clean
  exact conforms_of_itemTypeBody (obeys_of_violations conforms) rfl rfl clean

theorem conforms_itemTypeExtension (clean : (s.itemTypeExtension e).Clean) :
    Conforms .itemTypeExtension e := by
  simp only [itemTypeExtension, Checked.clean_bind, clean_check] at clean
  obtain ⟨conforms, -, -, clean, -⟩ := clean
  exact conforms_of_itemTypeBody (obeys_of_violations conforms) rfl rfl clean

theorem conforms_implementation {name : String} {i : Element}
    (clean : (s.implementation name e).Clean) (found : e.first? "Implementation" = some i) :
    Conforms .implementation i := by
  simp only [implementation, found, Checked.clean_bind] at clean
  exact .of_leaf rfl (obeys_of_statement clean.1)

theorem conforms_view (clean : (s.view e).Clean) : Conforms .view e := by
  simp only [view, Checked.clean_bind, clean_check] at clean
  obtain ⟨conforms, -, listing, accepting, implemented, granted, documented, -⟩ := clean
  have obeys := obeys_of_violations conforms
  refine .of_inner .view obeys fun c inside part listed => ?_
  simp only [Role.parts, List.mem_cons, Prod.mk.injEq, List.not_mem_nil, or_false] at listed
  rcases listed with ⟨named, rfl⟩ | ⟨named, rfl⟩ | ⟨named, rfl⟩ | ⟨named, rfl⟩ | ⟨named, rfl⟩
  · exact conforms_documentation documented (obeys.first?_eq_some inside named (by decide))
  · exact conforms_grant granted inside named
  · exact conforms_columns listing (obeys.first?_eq_some inside named (by decide))
  · exact conforms_parameters accepting (obeys.first?_eq_some inside named (by decide))
  · exact conforms_implementation implemented (obeys.first?_eq_some inside named (by decide))

theorem conforms_viewExtension (clean : (s.viewExtension e).Clean) :
    Conforms .viewExtension e := by
  simp only [viewExtension, Checked.clean_bind, clean_check] at clean
  obtain ⟨conforms, -, documented, granted, -⟩ := clean
  have obeys := obeys_of_violations conforms
  refine .of_inner .viewExtension obeys fun c inside part listed => ?_
  simp only [Role.parts, List.mem_cons, Prod.mk.injEq, List.not_mem_nil, or_false] at listed
  rcases listed with ⟨named, rfl⟩ | ⟨named, rfl⟩
  · exact conforms_documentation documented (obeys.first?_eq_some inside named (by decide))
  · exact conforms_grant granted inside named

theorem conforms_right (clean : (s.right e).Clean) : Conforms .right e := by
  simp only [right, Checked.clean_bind, clean_check] at clean
  obtain ⟨conforms, -, accepting, granted, documented, -⟩ := clean
  have obeys := obeys_of_violations conforms
  refine .of_inner .right obeys fun c inside part listed => ?_
  simp only [Role.parts, List.mem_cons, Prod.mk.injEq, List.not_mem_nil, or_false] at listed
  rcases listed with ⟨named, rfl⟩ | ⟨named, rfl⟩ | ⟨named, rfl⟩
  · exact conforms_documentation documented (obeys.first?_eq_some inside named (by decide))
  · exact conforms_grant granted inside named
  · exact conforms_parameters accepting (obeys.first?_eq_some inside named (by decide))

theorem conforms_rightExtension (clean : (s.rightExtension e).Clean) :
    Conforms .rightExtension e := by
  simp only [rightExtension, Checked.clean_bind, clean_check] at clean
  obtain ⟨conforms, -, accepting, documented, granted, -⟩ := clean
  have obeys := obeys_of_violations conforms
  refine .of_inner .rightExtension obeys fun c inside part listed => ?_
  simp only [Role.parts, List.mem_cons, Prod.mk.injEq, List.not_mem_nil, or_false] at listed
  rcases listed with ⟨named, rfl⟩ | ⟨named, rfl⟩ | ⟨named, rfl⟩
  · exact conforms_documentation documented (obeys.first?_eq_some inside named (by decide))
  · exact conforms_grant granted inside named
  · exact conforms_parameters accepting (obeys.first?_eq_some inside named (by decide))

/-! ## Files -/

/-- The problems of a declaration do not depend on what was read before it. -/
theorem problems_declaration (file other : SchemaFile) :
    (s.declaration file e).problems = (s.declaration other e).problems := by
  unfold declaration
  split <;> rfl

theorem clean_of_declarations {file : SchemaFile} {es : List Element}
    (clean : (s.declarations file es).Clean) :
    ∀ c ∈ es, ∀ other, (s.declaration other c).Clean := by
  induction es generalizing file with
  | nil => exact fun _ inside => nomatch inside
  | cons e rest ih =>
      unfold declarations at clean
      rw [Checked.clean_bind] at clean
      refine List.forall_mem_cons.mpr ⟨fun other => ?_, ih clean.2⟩
      exact (problems_declaration other file).trans clean.1

/-- A declaration plays the part that its name says. -/
theorem conforms_declaration {file : SchemaFile} {part : Role}
    (clean : (s.declaration file e).Clean) (listed : (e.name, part) ∈ Role.schemaFile.parts) :
    Conforms part e := by
  simp only [Role.parts, List.mem_cons, Prod.mk.injEq, List.not_mem_nil, or_false] at listed
  rcases listed with ⟨named, rfl⟩ | ⟨named, rfl⟩ | ⟨named, rfl⟩ | ⟨named, rfl⟩ | ⟨named, rfl⟩ |
    ⟨named, rfl⟩ | ⟨named, rfl⟩ | ⟨named, rfl⟩ | ⟨named, rfl⟩ <;>
    simp only [declaration, named, Checked.clean_bind, Checked.clean_pure, and_true] at clean
  · exact conforms_enumType clean
  · exact conforms_itemType clean
  · exact conforms_view clean
  · exact conforms_right clean
  · exact conforms_itemTypeExtension clean
  · exact conforms_viewExtension clean
  · exact conforms_rightExtension clean
  · exact .of_leaf rfl (obeys_of_statement clean)
  · exact .of_leaf rfl (obeys_of_statement clean)

/-- A clean pass over a file starts at the right root. -/
theorem clean_file (clean : s.file.Clean) :
    s.document.root.tag.name = ⟨some schemaNamespace, "StoreSchema"⟩ ∧
      s.violations s.document.root .storeSchema = [] ∧
      (s.declarations (.empty s.fileName) s.document.root.elements).Clean ∧
      s.file.value = (s.declarations (.empty s.fileName) s.document.root.elements).value := by
  dsimp only [file] at clean ⊢
  split at clean
  next rooted =>
    rw [if_pos rooted]
    simp only [Checked.clean_bind, clean_check] at clean
    exact ⟨rooted, clean.1, clean.2, rfl⟩
  next => simp at clean

theorem conforms_file (clean : s.file.Clean) : Conforms .schemaFile s.document.root := by
  obtain ⟨-, conforms, clean, -⟩ := clean_file clean
  refine .of_inner .schemaFile (obeys_of_violations conforms) ?_
  intro c inside part listed
  exact conforms_declaration (clean_of_declarations clean c inside (.empty s.fileName)) listed

end Source

end LearningStore.Schema
