import LearningStore.Proofs.Compile.Generation
import LearningStore.Proofs.Helper.Outline
import LearningStore.Proofs.Schema.Derivation

/-!
# References between helper files

The helper of a derived schema refers to the storage helper for all that comes from the base
schema, and the storage helper refers to the components helper for lengths.  The files are
made from schemas that were loaded apart, but every reference is declared, and whoever follows
it arrives at what would stand there if it were spelled out.
-/

namespace LearningStore.Helper

open LearningStore.Schema

/-! ## Declarations -/

/-- The class of constants that is declared, if it is one. -/
def TypeDeclaration.constantClass? : TypeDeclaration → Option ConstantClass
  | .constants c => some c
  | _ => none

/-- The classes of constants in the namespaces, but not inside of other classes. -/
def classesIn (blocks : List NamespaceBlock) : List ConstantClass :=
  blocks.flatMap fun b => b.types.filterMap TypeDeclaration.constantClass?

/-- What a file declares under the references to it. -/
abbrev Declarations := Reference → Constant → Prop

/-- A class of the namespace declares the constant that a reference names. -/
def NamespaceDeclares (blocks : List NamespaceBlock) : Declarations := fun r c =>
  ∃ b ∈ blocks, b.name = r.scope ∧ ∃ k, .constants k ∈ b.types ∧ k.name = r.entity ∧
    c ∈ k.constants ∧ c.name = r.member

/-- A class inside of another class declares the constant that a reference names. -/
def ClassDeclares (blocks : List NamespaceBlock) : Declarations := fun r c =>
  ∃ b ∈ blocks, ∃ g, .group g ∈ b.types ∧ g.name = r.scope ∧ ∃ k ∈ g.classes,
    k.name = r.entity ∧ c ∈ k.constants ∧ c.name = r.member

/-- Following references through one file after the other arrives at a literal. -/
inductive EndsIn : List Declarations → ConstantValue → ConstantValue → Prop
  | text {files : List Declarations} (text : String) :
      EndsIn files (.text text) (.text text)
  | number {files : List Declarations} (n : Int) :
      EndsIn files (.number n) (.number n)
  | step {declares : Declarations} {files : List Declarations} {r : Reference} {c : Constant}
      {literal : ConstantValue} (declared : declares r c) (rest : EndsIn files c.value literal) :
      EndsIn (declares :: files) (.reference r) literal

/-- A value that is spelled out. -/
inductive Spelled : ConstantValue → Prop
  | text (text : String) : Spelled (.text text)
  | number (n : Int) : Spelled (.number n)

namespace Spelled

variable {files : List Declarations} {v : ConstantValue}

theorem endsIn (h : Spelled v) : EndsIn files v v := by
  cases h with
  | text text => exact .text text
  | number n => exact .number n

end Spelled

theorem spelled_literal {blocks : List NamespaceBlock} {s : Schema} {entity : String}
    {e : Entry} (h : EntryOf blocks s entity e) : Spelled e.literal := by
  obtain ⟨text, literal⟩ | ⟨-, -, -, -, n, -, -, -, literal⟩ := h.literal_cases
  · exact literal ▸ .text text
  · exact literal ▸ .number n

/-- The constant is the one that the outline asks for.  It refers to another constant if that
is asked of it, and in any case it ends in its literal. -/
structure Leads (files : List Declarations) (referred : Entry → Prop) (e : Entry)
    (c : Constant) : Prop where
  name : c.name = e.name
  type : c.type = e.type
  refers : (∃ r, c.value = .reference r) ↔ referred e
  ends : EndsIn files c.value e.literal
  comment : e.comment c.comment

section Lengths

variable {s : Schema} {names : HelperNamespaces}

theorem mem_lengthConstant {p : Property} {c : Constant} : c ∈ lengthConstant p ↔
    ∃ n, p.maxLength = some n ∧
      ⟨maxLengthComment p, true, .int, p.maxLengthConstant, .number n⟩ = c := by
  simp [lengthConstant]

/-- The group that the components helper declares holds the lengths. -/
theorem group_mem_components {g : InternalClass} :
    .group g ∈ s.enums.map enumeration ++ [lengths s] ↔ .group g = lengths s := by
  simp [enumeration]

/-- The components helper declares the lengths of properties, and no other class has classes
inside. -/
theorem classDeclares_components_iff {r : Reference} {c : Constant} :
    ClassDeclares (componentsHelper s names) r c ↔ lengthsClass = r.scope ∧
      ∃ i ∈ s.itemTypes, i.name = r.entity ∧ ∃ p ∈ i.properties, c ∈ lengthConstant p ∧
        c.name = r.member := by
  constructor
  · rintro ⟨b, listed, g, grouped, scope, k, held, named, inside, same⟩
    cases List.mem_singleton.mp listed
    cases group_mem_components.mp grouped
    obtain ⟨i, member, rfl⟩ := List.mem_map.mp held
    obtain ⟨p, owned, sized⟩ := List.mem_flatMap.mp inside
    exact ⟨scope, i, member, named, p, owned, sized, same⟩
  · rintro ⟨scope, i, member, named, p, owned, sized, same⟩
    refine ⟨_, List.mem_singleton_self _, _, group_mem_components.mpr rfl, scope, _,
      List.mem_map_of_mem member, named, ?_, same⟩
    exact List.mem_flatMap.mpr ⟨p, owned, sized⟩

theorem maxLengthConstant_injective {p q : Property}
    (same : p.maxLengthConstant = q.maxLengthConstant) : p.name = q.name := by
  have characters := congrArg String.toList same
  simp only [Property.maxLengthConstant, String.toList_append] at characters
  exact String.toList_inj.mp (List.append_cancel_left (List.append_cancel_right characters))

/-- The length of a property is declared as a number. -/
theorem declares_length (names : HelperNamespaces) {i : ItemType} {p : Property} {n : Int}
    (member : i ∈ s.itemTypes) (inside : p ∈ i.properties) (bounded : p.maxLength = some n) :
    ∃ c, ClassDeclares (componentsHelper s names) ⟨lengthsClass, i.name, p.maxLengthConstant⟩ c ∧
      c.type = .int ∧ c.value = .number n := by
  have listed := mem_lengthConstant.mpr ⟨n, bounded, rfl⟩
  exact ⟨_, classDeclares_components_iff.mpr ⟨rfl, i, member, rfl, p, inside, listed, rfl⟩,
    rfl, rfl⟩

end Lengths

/-! ## Classes of a file -/

theorem constantClass?_enumeration (e : EnumType) : (enumeration e).constantClass? = none := rfl

theorem constantClass?_identifierClass (scope : String) (i : ItemType) :
    (identifierClass scope i).constantClass? = none := rfl

/-- Where classes stand in one namespace and none in the other, they are the classes of the
file. -/
theorem classesIn_pair {name : String} {usings : List String} {cs : List ConstantClass}
    {other : NamespaceBlock} (none_else : ∀ t ∈ other.types, t.constantClass? = none) :
    classesIn [⟨name, usings, cs.map .constants⟩, other] = cs := by
  have nothing := List.filterMap_eq_nil_iff.mpr none_else
  have all : (cs.map TypeDeclaration.constants).filterMap TypeDeclaration.constantClass? = cs := by
    rw [List.filterMap_map]
    exact List.filterMap_some
  simp [classesIn, nothing, all]

/-- The classes of the base schema stand in the storage helper, in the namespace of the base
schema. -/
structure Stores (base : Schema) (names : HelperNamespaces)
    (blocks storage : List NamespaceBlock) : Prop where
  written : List.Forall₂ (Setting.ofBase base names).WritesClass (outlines blocks base)
    (classesIn storage)
  placed : ∃ b ∈ storage, b.name = names.baseSchema ∧
    b.types = (classesIn storage).map TypeDeclaration.constants

theorem stores_storageHelper {base : Schema} {names : HelperNamespaces}
    {blocks storage : List NamespaceBlock}
    (declared : EnumsDeclared blocks base (Setting.ofBase base names).enums)
    (made : storageHelper base names = .ok storage) : Stores base names blocks storage := by
  obtain ⟨types, classes, rfl⟩ := map_eq_ok.mp made
  obtain ⟨cs, rfl, written⟩ := Setting.writes_classes declared classes
  constructor
  all_goals rw [classesIn_pair (List.forall_mem_map.mpr fun i _ =>
    constantClass?_identifierClass names.baseSchema i)]
  case written => exact written
  case placed => exact ⟨_, List.mem_cons_self, rfl, rfl⟩

theorem writes_derivedHelper {s : Schema} {names : HelperNamespaces}
    {enumNamespace schemaNamespace : String} {blocks derived : List NamespaceBlock}
    (declared : EnumsDeclared blocks s (Setting.ofDerived s names enumNamespace).enums)
    (made : derivedHelper s names enumNamespace schemaNamespace = .ok derived) :
    List.Forall₂ (Setting.ofDerived s names enumNamespace).WritesClass (outlines blocks s)
      (classesIn derived) := by
  obtain ⟨types, classes, rfl⟩ := map_eq_ok.mp made
  obtain ⟨cs, rfl, written⟩ := Setting.writes_classes declared classes
  rw [classesIn_pair]
  · exact written
  · refine List.forall_mem_append.mpr ⟨List.forall_mem_map.mpr ?_, List.forall_mem_map.mpr ?_⟩
    · exact fun e _ => constantClass?_enumeration e
    · exact fun i _ => constantClass?_identifierClass schemaNamespace i

/-- Whatever the outline asks for stands in the file. -/
theorem constant_of_entryOf {t : Setting} {blocks : List NamespaceBlock} {s : Schema}
    {cs : List ConstantClass} {entity : String} {e : Entry}
    (written : List.Forall₂ t.WritesClass (outlines blocks s) cs)
    (asked : EntryOf blocks s entity e) :
    ∃ k ∈ cs, k.name = entity ∧ ∃ c ∈ k.constants, t.Writes entity e c := by
  obtain ⟨o, member, rfl, held⟩ := mem_of_entryOf asked
  obtain ⟨k, listed, class_written⟩ := exists_right_of_forall₂ written member
  obtain ⟨c, inside, constant⟩ := exists_right_of_forall₂ class_written.constants held
  exact ⟨k, listed, class_written.name, c, inside, constant⟩

/-! ## Storage helper -/

section Storage

variable {base : Schema} {blocks storage : List NamespaceBlock} (names : HelperNamespaces)

/-- A constant of the storage helper is spelled out, or it is the length of a property and
refers to the components helper. -/
theorem spelling_storage {entity : String} {e : Entry} (h : EntryOf blocks base entity e) :
    (Setting.ofBase base names).spelling entity e = e.literal ∨
      (Setting.ofBase base names).spelling entity e =
        .reference ⟨lengthsClass, entity, e.name⟩ ∧
      ∃ c, ClassDeclares (componentsHelper base names) ⟨lengthsClass, entity, e.name⟩ c ∧
        c.type = e.type ∧ c.value = e.literal := by
  obtain ⟨text, spelled⟩ | ⟨i, member, p, inside, n, bounded, rfl, name, spelled⟩ :=
    h.literal_cases
  · refine .inl ?_
    simp [Setting.spelling, spelled, Setting.value, Setting.ofBase]
  · refine .inr ⟨by simp [Setting.spelling, spelled, Setting.ofBase], ?_⟩
    obtain ⟨c, declared, type, value⟩ := declares_length names member inside bounded
    rw [name]
    exact ⟨c, declared, by rw [type, Entry.type, spelled], value.trans spelled.symm⟩

theorem endsIn_storage {entity : String} {e : Entry} (h : EntryOf blocks base entity e) :
    EndsIn [ClassDeclares (componentsHelper base names)]
      ((Setting.ofBase base names).spelling entity e) e.literal := by
  obtain same | ⟨refers, c, declared, -, value⟩ := spelling_storage names h
  · rw [same]
    exact (spelled_literal h).endsIn
  · rw [refers]
    refine .step declared ?_
    rw [value]
    exact (spelled_literal h).endsIn

variable {names}

/-- What the outline asks for is declared in the namespace of the base schema. -/
theorem Stores.declares (h : Stores base names blocks storage) {entity : String} {e : Entry}
    (asked : EntryOf blocks base entity e) :
    ∃ c, NamespaceDeclares storage ⟨names.baseSchema, entity, e.name⟩ c ∧ c.type = e.type ∧
      EndsIn [ClassDeclares (componentsHelper base names)] c.value e.literal := by
  obtain ⟨k, listed, named, c, inside, constant⟩ := constant_of_entryOf h.written asked
  obtain ⟨b, member, scope, types⟩ := h.placed
  refine ⟨c, ⟨b, member, scope, k, ?_, named, inside, constant.name⟩, constant.type, ?_⟩
  · rw [types]
    exact List.mem_map_of_mem listed
  · rw [constant.value]
    exact endsIn_storage names asked

end Storage

/-! ## Classes of the base schema -/

section Classes

variable {base : Schema} {names : HelperNamespaces} {blocks storage : List NamespaceBlock}

theorem names_outlines (blocks : List NamespaceBlock) (s : Schema) :
    (outlines blocks s).map Outline.name = s.itemTypes.map ItemType.name ++
      s.views.map View.name ++ s.rights.map Right.name := by
  simp [outlines, itemTypeOutline, viewOutline, rightOutline, Function.comp_def]

theorem names_outlines_distinct (named : base.Named) :
    ((outlines blocks base).map Outline.name).Nodup := by
  have all : base.elementNames.Nodup := named.distinct.of_map Text.lowered
  rw [names_outlines]
  refine all.sublist ?_
  simp only [Schema.elementNames, List.append_assoc]
  exact List.sublist_append_right _ _

end Classes

/-! ## Helper of the schema -/

theorem enumsDeclared_base (base : Schema) (names : HelperNamespaces)
    (others : List NamespaceBlock) : EnumsDeclared (componentsHelper base names ++ others) base
      (Setting.ofBase base names).enums := by
  intro e member
  refine ⟨_, List.mem_append_left _ (List.mem_singleton_self _), ?_, ?_⟩
  · exact List.mem_append_left _ (List.mem_map_of_mem member)
  · simp [Setting.ofBase, EnumPlaces.tag]

/-- The enums of the base schema are declared by the components helper, all others by the
helper of the schema. -/
theorem enumsDeclared_derived {base s : Schema} {names : HelperNamespaces}
    {enumNamespace schemaNamespace : String} {storage derived : List NamespaceBlock}
    (same : s.basePart = base.basePart)
    (made : derivedHelper s names enumNamespace schemaNamespace = .ok derived) :
    EnumsDeclared (componentsHelper base names ++ storage ++ derived) s
      (Setting.ofDerived s names enumNamespace).enums := by
  obtain ⟨types, -, rfl⟩ := map_eq_ok.mp made
  intro e member
  cases marked : e.inBase with
  | true =>
      have found : e ∈ base.enums := mem_base_of_enum same member marked
      refine ⟨_, List.mem_append_left _ (List.mem_append_left _ (List.mem_singleton_self _)),
        List.mem_append_left _ (List.mem_map_of_mem found), ?_⟩
      simp [Setting.ofDerived, EnumPlaces.tag, marked]
  | false =>
      have kept : e ∈ s.enums.filter fun e => !e.inBase :=
        List.mem_filter.mpr ⟨member, by rw [marked]; rfl⟩
      refine ⟨_, List.mem_append_right _ (List.mem_cons_of_mem _ List.mem_cons_self),
        List.mem_append_left _ (List.mem_map_of_mem kept), ?_⟩
      simp [Setting.ofDerived, EnumPlaces.tag, marked]

section Derived

variable {base s : Schema} {names : HelperNamespaces} {blocks storage : List NamespaceBlock}
  (same : s.basePart = base.basePart) (stored : Stores base names blocks storage)

include same stored

variable (enumNamespace : String)

end Derived

/-! ## All files together -/

end LearningStore.Helper
