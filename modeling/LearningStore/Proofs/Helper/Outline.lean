import LearningStore.Helper.File
import LearningStore.Proofs.Schema.Lookup

/-!
# What helper files hold

The outline of a schema lists the classes of its elements and the constants in them, each
spelled out and with the comment that is right for it.  The classes of a helper file follow
the outline one by one; the setting of the file decides only where a constant is spelled out
and where it refers to another one.
-/

namespace LearningStore.Helper

open LearningStore.Schema
open LearningStore.Value

/-! ## Comments -/

/-- The tag of an enum that is declared in one of the namespaces. -/
def IsTagOf (blocks : List NamespaceBlock) (e : Enumeration) (tag : String) : Prop :=
  ∃ b ∈ blocks, .enumeration e ∈ b.types ∧ tag = "/" ++ b.name ++ "." ++ e.name

/-- What is said about the type of a member.  An enum is shown by its tag. -/
inductive TypeText (blocks : List NamespaceBlock) (m : Member) (maxLength : Option Int) :
    String → Prop
  | enumeration {e : Enumeration} {tag : String} (type : m.valueType = .enumeration)
      (named : m.enumName = some e.name) (declared : IsTagOf blocks e tag) :
      TypeText blocks m maxLength ("Enumeration <Typ>" ++ tag ++ "</Typ>")
  | itemIdentifier {name : String} (type : m.valueType = .itemIdentifier)
      (named : m.itemTypeName = some name) :
      TypeText blocks m maxLength ("Identifier of a <Typ>" ++ name ++ "</Typ> item")
  | plain (no_enum : m.valueType ≠ .enumeration) (no_item : m.valueType ≠ .itemIdentifier) :
      TypeText blocks m maxLength (m.valueType.docDescription maxLength none)

/-- What is said about a default.  A value of an enum is shown by the tag of the enum and its
name there. -/
inductive DefaultText (blocks : List NamespaceBlock) (m : Member) : DefaultValue → String → Prop
  | member {e : Enumeration} {tag : String} {v : EnumMember} (named : m.enumName = some e.name)
      (declared : IsTagOf blocks e tag) (inside : v ∈ e.members) :
      DefaultText blocks m (.literal (.enumeration v.value))
        ("<Fld>" ++ (tag ++ "." ++ v.name) ++ "</Fld>")
  | plain (default : DefaultValue) : DefaultText blocks m default (default.docText none)

/-- What is said about the default of a property, or about its absence. -/
inductive DefaultRemark (blocks : List NamespaceBlock) (p : Property) : String → Prop
  | value {default : DefaultValue} {text : String} (declared : p.default = some default)
      (shown : DefaultText blocks p.toMember default text) :
      DefaultRemark blocks p ("Default value: " ++ text ++ "<p/>")
  | nothing (absent : p.default = none) : DefaultRemark blocks p "No default value.<p/>"

/-- The comment of a property shows its type, whether it can be null, and its default. -/
inductive PropertyText (blocks : List NamespaceBlock) (p : Property) : DocComment → Prop
  | intro {type default : String} (typed : TypeText blocks p.toMember p.maxLength type)
      (defaulted : DefaultRemark blocks p default) :
      PropertyText blocks p
        (((DocComment.ofSummary (propertySummary p.name p.owner)).withDocumentation
          p.documentation).withRemarkLines
            (["Type: " ++ type ++ "<p/>",
              if p.nullable then "Can be null.<p/>" else "Cannot be null.<p/>", default] ++
              cascadeRemarks p))

inductive ColumnText (blocks : List NamespaceBlock) (c : Column) : DocComment → Prop
  | intro {type : String} (typed : TypeText blocks c.toMember none type) :
      ColumnText blocks c
        (((DocComment.ofSummary ("Name of the " ++ c.name ++ " column of the " ++ c.owner ++
          " view.")).withDocumentation c.documentation).withRemark ("Type: " ++ type))

inductive ParameterText (blocks : List NamespaceBlock) (p : Parameter) : DocComment → Prop
  | intro {type : String} (typed : TypeText blocks p.toMember none type) :
      ParameterText blocks p
        (((DocComment.ofSummary ("Name of the " ++ p.name ++ " parameter of the " ++
          ownerPhrase p.owner ++ ".")).withDocumentation p.documentation).withRemark
            ("Type: " ++ type))

/-! ## Outlines -/

/-- A constant that stands for a literal, and the comments that are right for it. -/
structure Entry where
  inBase : Bool
  name : String
  literal : ConstantValue
  comment : DocComment → Prop

/-- Lengths are numbers, everything else is text. -/
def Entry.type (e : Entry) : ConstantType :=
  match e.literal with
  | .number _ => .int
  | _ => .string

/-- A class with its constants. -/
structure Outline where
  name : String
  comment : DocComment
  entries : List Entry

section Outlines

variable (blocks : List NamespaceBlock)

/-- The name of a property and its maximum length, if it has one. -/
def propertyEntries (p : Property) : List Entry :=
  ⟨p.inBase, p.name, .text p.name, PropertyText blocks p⟩ ::
    p.maxLength.toList.map fun length =>
      ⟨p.inBase, p.maxLengthConstant, .number length, fun c => c = maxLengthComment p⟩

def columnEntry (c : Column) : Entry :=
  ⟨c.inBase, c.name, .text c.name, ColumnText blocks c⟩

def parameterEntry (p : Parameter) : Entry :=
  ⟨p.inBase, p.name, .text p.name, ParameterText blocks p⟩

def itemTypeOutline (i : ItemType) : Outline :=
  ⟨i.name, itemTypeComment i,
    [⟨i.inBase, "ItemTypeName", .text i.name, fun c => c = itemTypeNameComment i⟩,
      ⟨i.inBase, "Id", .text "Id", fun c => c = idComment i⟩] ++
      i.properties.flatMap (propertyEntries blocks)⟩

def viewOutline (v : View) : Outline :=
  ⟨v.name, viewComment v,
    [⟨v.inBase, "ViewName", .text v.name, fun c => c = viewNameComment v⟩] ++
      v.columns.map (columnEntry blocks) ++ v.parameters.map (parameterEntry blocks)⟩

def rightOutline (r : Right) : Outline :=
  ⟨r.name, rightComment r,
    ⟨r.inBase, "RightName", .text r.name, fun c => c = rightNameComment r⟩ ::
      r.parameters.map (parameterEntry blocks)⟩

/-- The outline of a schema: item types, then views, then rights. -/
def outlines (s : Schema) : List Outline :=
  s.itemTypes.map (itemTypeOutline blocks) ++ s.views.map (viewOutline blocks) ++
    s.rights.map (rightOutline blocks)

end Outlines

/-- The constants of an outline by the class that holds them, one case for each way in which
a schema asks for a constant. -/
inductive EntryOf (blocks : List NamespaceBlock) (s : Schema) : String → Entry → Prop
  | itemTypeName {i : ItemType} (member : i ∈ s.itemTypes) : EntryOf blocks s i.name
      ⟨i.inBase, "ItemTypeName", .text i.name, fun c => c = itemTypeNameComment i⟩
  | id {i : ItemType} (member : i ∈ s.itemTypes) : EntryOf blocks s i.name
      ⟨i.inBase, "Id", .text "Id", fun c => c = idComment i⟩
  | property {i : ItemType} {p : Property} (member : i ∈ s.itemTypes)
      (inside : p ∈ i.properties) : EntryOf blocks s i.name
      ⟨p.inBase, p.name, .text p.name, PropertyText blocks p⟩
  | length {i : ItemType} {p : Property} {n : Int} (member : i ∈ s.itemTypes)
      (inside : p ∈ i.properties) (bounded : p.maxLength = some n) : EntryOf blocks s i.name
      ⟨p.inBase, p.maxLengthConstant, .number n, fun c => c = maxLengthComment p⟩
  | viewName {v : View} (member : v ∈ s.views) : EntryOf blocks s v.name
      ⟨v.inBase, "ViewName", .text v.name, fun c => c = viewNameComment v⟩
  | column {v : View} {c : Column} (member : v ∈ s.views) (inside : c ∈ v.columns) :
      EntryOf blocks s v.name (columnEntry blocks c)
  | viewParameter {v : View} {p : Parameter} (member : v ∈ s.views)
      (inside : p ∈ v.parameters) : EntryOf blocks s v.name (parameterEntry blocks p)
  | rightName {r : Right} (member : r ∈ s.rights) : EntryOf blocks s r.name
      ⟨r.inBase, "RightName", .text r.name, fun c => c = rightNameComment r⟩
  | rightParameter {r : Right} {p : Parameter} (member : r ∈ s.rights)
      (inside : p ∈ r.parameters) : EntryOf blocks s r.name (parameterEntry blocks p)

section Entries

variable {blocks : List NamespaceBlock} {s : Schema}

theorem mem_propertyEntries {p : Property} {e : Entry} :
    e ∈ propertyEntries blocks p ↔
      e = ⟨p.inBase, p.name, .text p.name, PropertyText blocks p⟩ ∨
        ∃ n, p.maxLength = some n ∧
          e = ⟨p.inBase, p.maxLengthConstant, .number n, fun c => c = maxLengthComment p⟩ := by
  simp [propertyEntries, eq_comm]

theorem mem_outlines_of_itemType {i : ItemType} (member : i ∈ s.itemTypes) :
    itemTypeOutline blocks i ∈ outlines blocks s :=
  List.mem_append_left _ (List.mem_append_left _ (List.mem_map_of_mem member))

theorem mem_outlines_of_view {v : View} (member : v ∈ s.views) :
    viewOutline blocks v ∈ outlines blocks s :=
  List.mem_append_left _ (List.mem_append_right _ (List.mem_map_of_mem member))

theorem mem_outlines_of_right {r : Right} (member : r ∈ s.rights) :
    rightOutline blocks r ∈ outlines blocks s :=
  List.mem_append_right _ (List.mem_map_of_mem member)

theorem mem_of_entryOf {entity : String} {e : Entry} (h : EntryOf blocks s entity e) :
    ∃ o ∈ outlines blocks s, o.name = entity ∧ e ∈ o.entries := by
  cases h with
  | itemTypeName member =>
      exact ⟨_, mem_outlines_of_itemType member, rfl, List.mem_cons_self⟩
  | id member =>
      exact ⟨_, mem_outlines_of_itemType member, rfl, List.mem_cons_of_mem _ List.mem_cons_self⟩
  | property member inside =>
      refine ⟨_, mem_outlines_of_itemType member, rfl, List.mem_append_right _ ?_⟩
      exact List.mem_flatMap.mpr ⟨_, inside, mem_propertyEntries.mpr (.inl rfl)⟩
  | length member inside bounded =>
      refine ⟨_, mem_outlines_of_itemType member, rfl, List.mem_append_right _ ?_⟩
      exact List.mem_flatMap.mpr ⟨_, inside, mem_propertyEntries.mpr (.inr ⟨_, bounded, rfl⟩)⟩
  | viewName member => exact ⟨_, mem_outlines_of_view member, rfl, List.mem_cons_self⟩
  | column member inside =>
      refine ⟨_, mem_outlines_of_view member, rfl, List.mem_append_left _ ?_⟩
      exact List.mem_append_right _ (List.mem_map_of_mem inside)
  | viewParameter member inside =>
      refine ⟨_, mem_outlines_of_view member, rfl, List.mem_append_right _ ?_⟩
      exact List.mem_map_of_mem inside
  | rightName member => exact ⟨_, mem_outlines_of_right member, rfl, List.mem_cons_self⟩
  | rightParameter member inside =>
      refine ⟨_, mem_outlines_of_right member, rfl, List.mem_cons_of_mem _ ?_⟩
      exact List.mem_map_of_mem inside

/-- Outlines hold text and numbers, and the numbers are the lengths of properties. -/
theorem EntryOf.literal_cases {entity : String} {e : Entry} (h : EntryOf blocks s entity e) :
    (∃ text, e.literal = .text text) ∨ ∃ i ∈ s.itemTypes, ∃ p ∈ i.properties, ∃ n,
      p.maxLength = some n ∧ i.name = entity ∧ e.name = p.maxLengthConstant ∧
        e.literal = .number n := by
  cases h with
  | length member inside bounded =>
      exact .inr ⟨_, member, _, inside, _, bounded, rfl, rfl, rfl⟩
  | _ => exact .inl ⟨_, rfl⟩

end Entries

/-! ## Comments are right -/

/-- Every enum is declared in the namespace that its tag names. -/
def EnumsDeclared (blocks : List NamespaceBlock) (s : Schema) (places : EnumPlaces) : Prop :=
  ∀ e ∈ s.enums, ∃ b ∈ blocks, enumeration e ∈ b.types ∧
    places.tag e = "/" ++ b.name ++ "." ++ e.name

section Comments

variable {s : Schema} {places : EnumPlaces} {blocks : List NamespaceBlock}

variable (declared : EnumsDeclared blocks s places)

include declared

/-- The declaration of an enum that a member refers to has the tag of the enum. -/
theorem isTagOf_of_referencedEnum {m : Member} {e : EnumType}
    (found : s.referencedEnum m = .ok e) : ∃ d : Enumeration, m.enumName = some d.name ∧
      IsTagOf blocks d (places.tag e) ∧ ∀ v ∈ e.values, ∃ w ∈ d.members,
        w.name = v.name ∧ w.value = v.value := by
  obtain ⟨inside, named⟩ := mem_of_referencedEnum found
  obtain ⟨b, member, held, tagged⟩ := declared e inside
  exact ⟨_, named, ⟨b, member, held, tagged⟩, fun v known =>
    ⟨_, List.mem_map_of_mem known, rfl, rfl⟩⟩

theorem typeText_of_ok {m : Member} {maxLength : Option Int} {text : String}
    (made : typeDescription s places m maxLength = .ok text) :
    TypeText blocks m maxLength text := by
  unfold typeDescription at made
  split at made
  next type =>
    obtain ⟨e, found, rfl⟩ := map_eq_ok.mp made
    obtain ⟨d, named, tagged, -⟩ := isTagOf_of_referencedEnum declared found
    rw [type]
    exact .enumeration type named tagged
  next type =>
    obtain ⟨i, found, rfl⟩ := map_eq_ok.mp made
    rw [type]
    exact .itemIdentifier type (mem_of_referencedItemType found).2
  next no_enum no_item =>
    cases made
    exact .plain no_enum no_item

theorem defaultText_of_ok {m : Member} {default : DefaultValue} {text : String}
    (made : defaultDescription s places m default = .ok text) :
    DefaultText blocks m default text := by
  unfold defaultDescription at made
  split at made
  next value =>
    obtain ⟨e, found, rfl⟩ := map_eq_ok.mp made
    cases valued : e.nameOf? value with
    -- A number that is no value of the enum is shown as it is, without a tag.
    | none => exact .plain _
    | some name =>
        obtain ⟨d, named, tagged, members⟩ := isTagOf_of_referencedEnum declared found
        obtain ⟨v, first, rfl⟩ := Option.map_eq_some_iff.mp valued
        obtain ⟨w, inside, sameName, sameValue⟩ := members v (List.mem_of_find?_eq_some first)
        have same : v.value = value := by simpa using List.find?_some first
        rw [← same, ← sameValue, ← sameName]
        exact .member named tagged inside
  next =>
    cases made
    exact .plain default

theorem defaultRemark_of_ok {p : Property} {text : String}
    (made : defaultRemark s places p = .ok text) : DefaultRemark blocks p text := by
  unfold defaultRemark at made
  split at made
  next default given =>
    obtain ⟨shown, described, rfl⟩ := map_eq_ok.mp made
    exact .value given (defaultText_of_ok declared described)
  next absent =>
    cases made
    exact .nothing absent

theorem propertyText_of_ok {p : Property} {comment : DocComment}
    (made : propertyComment s places p = .ok comment) : PropertyText blocks p comment := by
  obtain ⟨type, typed, rest⟩ := bind_eq_ok.mp made
  obtain ⟨default, defaulted, same⟩ := bind_eq_ok.mp rest
  cases same
  exact .intro (typeText_of_ok declared typed) (defaultRemark_of_ok declared defaulted)

theorem columnText_of_ok {c : Column} {comment : DocComment}
    (made : columnComment s places c = .ok comment) : ColumnText blocks c comment := by
  obtain ⟨type, typed, rfl⟩ := map_eq_ok.mp made
  exact .intro (typeText_of_ok declared typed)

theorem parameterText_of_ok {p : Parameter} {comment : DocComment}
    (made : parameterComment s places p = .ok comment) : ParameterText blocks p comment := by
  obtain ⟨type, typed, rfl⟩ := map_eq_ok.mp made
  exact .intro (typeText_of_ok declared typed)

end Comments

/-! ## Classes follow the outline -/

namespace Setting

variable {t : Setting}

/-- The right-hand side of a constant in a file.  The storage helper refers to lengths. -/
def spelling (t : Setting) (entity : String) (e : Entry) : ConstantValue :=
  match t.flavor, e.literal with
  | .storage, .number _ => .reference ⟨lengthsClass, entity, e.name⟩
  | _, literal => t.value e.inBase entity e.name literal

/-- The constant is the one that the outline asks for, as the file writes it. -/
structure Writes (t : Setting) (entity : String) (e : Entry) (c : Constant) : Prop where
  name : c.name = e.name
  type : c.type = e.type
  value : c.value = t.spelling entity e
  comment : e.comment c.comment

/-- The class is the one that the outline asks for. -/
structure WritesClass (t : Setting) (o : Outline) (c : ConstantClass) : Prop where
  name : c.name = o.name
  comment : c.comment = o.comment
  constants : List.Forall₂ (t.Writes o.name) o.entries c.constants

theorem spelling_text {inBase : Bool} {entity member text : String} {P : DocComment → Prop} :
    t.spelling entity ⟨inBase, member, .text text, P⟩ =
      t.value inBase entity member (.text text) := by
  unfold spelling
  split
  next isNumber => cases isNumber
  next => rfl

variable {blocks : List NamespaceBlock} (declared : EnumsDeclared blocks t.schema t.enums)

theorem writes_entityName {inBase : Bool} {entity constant : String} {comment : DocComment} :
    t.Writes entity ⟨inBase, constant, .text entity, fun c => c = comment⟩
      (t.entityName inBase entity constant comment) :=
  ⟨rfl, rfl, spelling_text.symm, rfl⟩

theorem writes_memberName {nameAccepted inBase : Bool} {entity member : String}
    {P : DocComment → Prop} {comment : DocComment} (right : P comment) :
    t.Writes entity ⟨inBase, member, .text member, P⟩
      (t.memberName nameAccepted inBase entity member comment) :=
  ⟨rfl, rfl, spelling_text.symm, right⟩

theorem writes_maxLengthConstant (i : ItemType) (p : Property) :
    List.Forall₂ (t.Writes i.name) (p.maxLength.toList.map fun length =>
        ⟨p.inBase, p.maxLengthConstant, .number length, fun c => c = maxLengthComment p⟩)
      (t.maxLengthConstant i p) := by
  unfold maxLengthConstant
  cases p.maxLength with
  | none => exact .nil
  | some length =>
      refine .cons ⟨rfl, rfl, ?_, rfl⟩ .nil
      unfold spelling
      cases t.flavor <;> rfl

include declared

theorem writes_propertyConstants (i : ItemType) {p : Property} {cs : List Constant}
    (made : t.propertyConstants i p = .ok cs) :
    List.Forall₂ (t.Writes i.name) (propertyEntries blocks p) cs := by
  obtain ⟨comment, commented, rfl⟩ := map_eq_ok.mp made
  exact .cons (writes_memberName (propertyText_of_ok declared commented))
    (writes_maxLengthConstant i p)

theorem writes_itemTypeClass {i : ItemType} {c : ConstantClass}
    (made : t.itemTypeClass i = .ok c) : t.WritesClass (itemTypeOutline blocks i) c := by
  obtain ⟨constants, passed, rfl⟩ := map_eq_ok.mp made
  have properties := (mapM_eq_ok.mp passed).imp fun p cs => writes_propertyConstants declared i
  have flattened := List.rel_flatten (List.forall₂_map_left_iff.mpr properties)
  rw [← List.flatMap_def] at flattened
  exact ⟨rfl, rfl, .cons writes_entityName (.cons (writes_memberName rfl) flattened)⟩

theorem writes_parameters (entity : String) {parameters : List Parameter}
    {constants : List Constant}
    (passed : parameters.mapM (t.parameterConstant entity) = .ok constants) :
    List.Forall₂ (t.Writes entity) (parameters.map (parameterEntry blocks)) constants := by
  refine List.forall₂_map_left_iff.mpr ((mapM_eq_ok.mp passed).imp fun p c made => ?_)
  obtain ⟨comment, commented, rfl⟩ := map_eq_ok.mp made
  exact writes_memberName (parameterText_of_ok declared commented)

theorem writes_viewClass {v : View} {c : ConstantClass} (made : t.viewClass v = .ok c) :
    t.WritesClass (viewOutline blocks v) c := by
  obtain ⟨columns, passed, rest⟩ := bind_eq_ok.mp made
  obtain ⟨parameters, passedParameters, same⟩ := bind_eq_ok.mp rest
  cases same
  have written : List.Forall₂ (t.Writes v.name) (v.columns.map (columnEntry blocks)) columns := by
    refine List.forall₂_map_left_iff.mpr ((mapM_eq_ok.mp passed).imp fun c k made => ?_)
    obtain ⟨comment, commented, rfl⟩ := map_eq_ok.mp made
    exact writes_memberName (columnText_of_ok declared commented)
  have others := writes_parameters declared v.name passedParameters
  exact ⟨rfl, rfl, List.rel_append (.cons writes_entityName written) others⟩

theorem writes_rightClass {r : Right} {c : ConstantClass} (made : t.rightClass r = .ok c) :
    t.WritesClass (rightOutline blocks r) c := by
  obtain ⟨parameters, passed, rfl⟩ := map_eq_ok.mp made
  exact ⟨rfl, rfl, .cons writes_entityName (writes_parameters declared r.name passed)⟩

/-- The classes of a file are those of the outline, in order. -/
theorem writes_classes {types : List TypeDeclaration} (made : t.classes = .ok types) :
    ∃ cs, types = cs.map TypeDeclaration.constants ∧
      List.Forall₂ t.WritesClass (outlines blocks t.schema) cs := by
  obtain ⟨itemTypes, passedItemTypes, rest⟩ := bind_eq_ok.mp made
  obtain ⟨views, passedViews, rest⟩ := bind_eq_ok.mp rest
  obtain ⟨rights, passedRights, same⟩ := bind_eq_ok.mp rest
  cases same
  have first := (mapM_eq_ok.mp passedItemTypes).imp fun i c => writes_itemTypeClass declared
  have second := (mapM_eq_ok.mp passedViews).imp fun v c => writes_viewClass declared
  have third := (mapM_eq_ok.mp passedRights).imp fun r c => writes_rightClass declared
  refine ⟨itemTypes ++ views ++ rights, rfl, ?_⟩
  exact List.rel_append
    (List.rel_append (List.forall₂_map_left_iff.mpr first) (List.forall₂_map_left_iff.mpr second))
    (List.forall₂_map_left_iff.mpr third)

end Setting

end LearningStore.Helper
