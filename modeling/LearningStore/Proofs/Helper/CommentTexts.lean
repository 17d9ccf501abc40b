import LearningStore.Proofs.Helper.CommentLines
import LearningStore.Proofs.Helper.References

/-!
# Texts in helper files

A helper file holds a comment for each declaration in it.  All of them are enclosed exactly if
the texts of the schema file that they show are contained: the documentation, the defaults that
are texts or expressions, and the namespaces that stand for enums and item types.
-/

namespace LearningStore.Helper

open LearningStore.Schema
open LearningStore.Text
open LearningStore.Value

/-! ## Comments of a file -/

/-- The comments of a class of constants and of the constants in it. -/
def ConstantClass.comments (c : ConstantClass) : List DocComment :=
  c.comment :: c.constants.map Constant.comment

/-- The comments of a type and of what it declares inside. -/
def TypeDeclaration.comments : TypeDeclaration → List DocComment
  | constants c => c.comments
  | enumeration e => e.comment :: e.members.map EnumMember.comment
  | identifier c => c.comment :: c.constructors.map Constructor.comment
  | group c => c.comment :: c.classes.flatMap ConstantClass.comments

/-- The comments of a file. -/
def commentsIn (blocks : List NamespaceBlock) : List DocComment :=
  blocks.flatMap fun b => b.types.flatMap TypeDeclaration.comments

/-- The lines of a comment stand among others, at some level. -/
def Stands (c : DocComment) (ls : List Line) : Prop :=
  ∃ level, indentedBy level c.lines <:+: ls

/-- What is set apart by blank lines stands among the lines of all. -/
theorem infix_blank_lines {α : Type} {xs : List α} {a : α} (member : a ∈ xs)
    (linesOf : α → List Line) : linesOf a <:+: xs.flatMap fun x => blankLine :: linesOf x := by
  obtain ⟨before, after, rfl⟩ := List.append_of_mem member
  refine ⟨before.flatMap (fun x => blankLine :: linesOf x) ++ [blankLine],
    after.flatMap fun x => blankLine :: linesOf x, ?_⟩
  rw [List.flatMap_append, List.flatMap_cons]
  simp only [List.append_assoc, List.cons_append, List.nil_append]

namespace Stands

variable {c : DocComment} {ls more : List Line}

theorem within (h : Stands c ls) (inside : ls <:+: more) : Stands c more := by
  obtain ⟨level, here⟩ := h
  exact ⟨level, here.trans inside⟩

theorem indented (h : Stands c ls) : Stands c (indented ls) := by
  obtain ⟨level, here⟩ := h
  refine ⟨level + 1, ?_⟩
  have further := here.map fun l => (⟨l.level + 1, l.text⟩ : Line)
  rw [indentedBy, List.map_map] at further
  exact further

/-- A comment stands at the start of its declaration. -/
theorem start (c : DocComment) (rest : List Line) : Stands c (c.lines ++ rest) := by
  have same : indentedBy 0 c.lines = c.lines := List.map_id' c.lines
  refine ⟨0, ?_⟩
  rw [same]
  exact (List.prefix_append _ _).isInfix

theorem item {items : List (List Line)} (h : Stands c ls) (member : ls ∈ items)
    (header : String) : Stands c (block header items) := by
  have inside := (h.within (infix_blank_lines member id)).indented
  exact inside.within ⟨[line (header ++ " \x7b")], [line "\x7d"], rfl⟩

end Stands

theorem stands_constantClass {c : ConstantClass} {k : DocComment} (member : k ∈ c.comments) :
    Stands k c.lines := by
  rw [ConstantClass.lines, List.append_assoc]
  rcases List.mem_cons.mp member with rfl | inside
  · exact .start _ _
  · obtain ⟨constant, held, rfl⟩ := List.mem_map.mp inside
    have here : Stands constant.comment constant.lines := by
      rw [Constant.lines, List.append_assoc]
      exact .start _ _
    have item := here.item (List.mem_map_of_mem held) ("public abstract class " ++ c.name)
    exact item.within ((List.suffix_append _ _).trans (List.suffix_append _ _)).isInfix

theorem stands_typeDeclaration {t : TypeDeclaration} {k : DocComment} (member : k ∈ t.comments) :
    Stands k t.lines := by
  cases t with
  | constants c => exact stands_constantClass member
  | enumeration e =>
      rcases List.mem_cons.mp member with rfl | inside
      · exact .start _ _
      · obtain ⟨value, held, rfl⟩ := List.mem_map.mp inside
        have here : Stands value.comment value.lines := by
          rw [EnumMember.lines, List.append_assoc]
          exact .start _ _
        have item := here.item (List.mem_map_of_mem held) ("public enum " ++ e.name)
        exact item.within (List.suffix_append _ _).isInfix
  | identifier c =>
      rcases List.mem_cons.mp member with rfl | inside
      · exact .start _ _
      · obtain ⟨constructor, held, rfl⟩ := List.mem_map.mp inside
        have here : Stands constructor.comment constructor.lines := by
          rw [Constructor.lines, List.append_assoc, List.append_assoc]
          exact .start _ _
        have item := here.item (List.mem_map_of_mem held)
          ("public class " ++ c.name ++ " : LearningStoreItemIdentifier")
        exact item.within (List.suffix_append _ _).isInfix
  | group c =>
      rcases List.mem_cons.mp member with rfl | inside
      · exact .start _ _
      · obtain ⟨inner, held, deeper⟩ := List.mem_flatMap.mp inside
        have item := (stands_constantClass deeper).item (List.mem_map_of_mem held)
          ("internal abstract class " ++ c.name)
        exact item.within (List.suffix_append _ _).isInfix

/-- Whatever comment a file holds, its text has that comment in it. -/
theorem written_of_mem_commentsIn {blocks : List NamespaceBlock} {k : DocComment}
    (member : k ∈ commentsIn blocks) : ∃ level before after,
      fileText blocks = before ++ renderLines (indentedBy level k.lines) ++ after := by
  obtain ⟨b, listed, inside⟩ := List.mem_flatMap.mp member
  obtain ⟨t, held, deeper⟩ := List.mem_flatMap.mp inside
  have inTypes := (stands_typeDeclaration deeper).within
    (infix_blank_lines held TypeDeclaration.lines)
  have inBlock : Stands k b.lines :=
    (inTypes.within (List.suffix_append _ _).isInfix).indented.within
      ⟨[line ("namespace " ++ b.name ++ " \x7b")], [line "\x7d"], rfl⟩
  have inFile : Stands k (fileHeader ++ blocks.flatMap fun b => blankLine :: b.lines) :=
    (inBlock.within (infix_blank_lines listed NamespaceBlock.lines)).within
      (List.suffix_append _ _).isInfix
  obtain ⟨level, front, back, here⟩ := inFile
  refine ⟨level, renderLines front, renderLines back, ?_⟩
  rw [← renderLines_append, ← renderLines_append, here, fileText]

/-! ## Texts of the schema -/

section Texts

variable (s : Schema) (places : EnumPlaces)

def itemTypeTexts (i : ItemType) : List String :=
  documentationTexts i.documentation ++ i.properties.flatMap (propertyTexts s places)

def viewTexts (v : View) : List String :=
  documentationTexts v.documentation ++
    (v.columns.flatMap fun c => memberTexts s places c.toMember) ++
      v.parameters.flatMap fun p => memberTexts s places p.toMember

def rightTexts (r : Right) : List String :=
  documentationTexts r.documentation ++
    r.parameters.flatMap fun p => memberTexts s places p.toMember

/-- The texts in the comments of the classes of constants. -/
def classTexts : List String :=
  s.itemTypes.flatMap (itemTypeTexts s places) ++ s.views.flatMap (viewTexts s places) ++
    s.rights.flatMap (rightTexts s places)

end Texts

/-! ## Classes of constants -/

/-- What decides on the comments of elements: that of an item type, a view or a right depends on
its documentation, that of a member on more, and those of an enum on the enum. -/
structure Criterion where
  documentation : Documentation → Prop
  property : Property → Prop
  member : Member → Prop
  enumType : EnumType → Prop

namespace Criterion

/-- All elements of a schema that have comments in classes of constants meet a criterion. -/
structure Met (k : Criterion) (s : Schema) : Prop where
  itemTypes : ∀ i ∈ s.itemTypes,
    k.documentation i.documentation ∧ ∀ p ∈ i.properties, k.property p
  views : ∀ v ∈ s.views, k.documentation v.documentation ∧
    (∀ c ∈ v.columns, k.member c.toMember) ∧ ∀ p ∈ v.parameters, k.member p.toMember
  rights : ∀ r ∈ s.rights,
    k.documentation r.documentation ∧ ∀ p ∈ r.parameters, k.member p.toMember

/-- A criterion decides whether comments have a property, but for the one that shows the namespace
of an item type; those that are made up from names have it. -/
structure Decides (k : Criterion) (P : DocComment → Prop) (s : Schema) (places : EnumPlaces) :
    Prop where
  itemType (i : ItemType) (member : i ∈ s.itemTypes) :
    P (itemTypeComment i) ↔ k.documentation i.documentation
  itemTypeNames (i : ItemType) (member : i ∈ s.itemTypes) :
    P (itemTypeNameComment i) ∧ P (idComment i)
  constructors (i : ItemType) (member : i ∈ s.itemTypes) :
    P (identifierOfKeyComment i) ∧ P (identifierOfIdentifierComment i)
  itemTypeLengths (i : ItemType) (member : i ∈ s.itemTypes) : P (itemTypeLengthsComment i)
  lengths : P lengthsComment
  property (i : ItemType) (member : i ∈ s.itemTypes) (p : Property) (inside : p ∈ i.properties)
    (comment : DocComment) (made : propertyComment s places p = .ok comment) :
    P comment ↔ k.property p
  maxLength (i : ItemType) (member : i ∈ s.itemTypes) (p : Property) (inside : p ∈ i.properties) :
    P (maxLengthComment p)
  view (v : View) (member : v ∈ s.views) : P (viewComment v) ↔ k.documentation v.documentation
  viewName (v : View) (member : v ∈ s.views) : P (viewNameComment v)
  column (v : View) (member : v ∈ s.views) (c : Column) (inside : c ∈ v.columns)
    (comment : DocComment) (made : columnComment s places c = .ok comment) :
    P comment ↔ k.member c.toMember
  viewParameter (v : View) (member : v ∈ s.views) (p : Parameter) (inside : p ∈ v.parameters)
    (comment : DocComment) (made : parameterComment s places p = .ok comment) :
    P comment ↔ k.member p.toMember
  right (r : Right) (member : r ∈ s.rights) :
    P (rightComment r) ↔ k.documentation r.documentation
  rightName (r : Right) (member : r ∈ s.rights) : P (rightNameComment r)
  rightParameter (r : Right) (member : r ∈ s.rights) (p : Parameter) (inside : p ∈ r.parameters)
    (comment : DocComment) (made : parameterComment s places p = .ok comment) :
    P comment ↔ k.member p.toMember
  enumeration (e : EnumType) (member : e ∈ s.enums) :
    P (enumComment e) ∧ (∀ v ∈ e.values, P (enumValueComment v)) ↔ k.enumType e

end Criterion

section Classes

variable {P : DocComment → Prop}

theorem forall_constantClass {k : ConstantClass} : (∀ c ∈ k.comments, P c) ↔
    P k.comment ∧ ∀ c ∈ k.constants, P c.comment := by
  rw [ConstantClass.comments, List.forall_mem_cons, List.forall_mem_map]

variable {t : Setting} {k : Criterion} (decides : k.Decides P t.schema t.enums)

include decides

theorem forall_itemTypeClass {i : ItemType} (member : i ∈ t.schema.itemTypes) {c : ConstantClass}
    (made : t.itemTypeClass i = .ok c) : (∀ x ∈ c.comments, P x) ↔
      k.documentation i.documentation ∧ ∀ p ∈ i.properties, k.property p := by
  obtain ⟨constants, passed, rfl⟩ := map_eq_ok.mp made
  have properties : (∀ cs ∈ constants, ∀ c ∈ cs, P c.comment) ↔
      ∀ p ∈ i.properties, k.property p := by
    refine forall_mem_iff_of_mapM passed fun p inside cs each => ?_
    obtain ⟨comment, commented, rfl⟩ := map_eq_ok.mp each
    have lengths : ∀ c ∈ t.maxLengthConstant i p, P c.comment :=
      List.forall_mem_map.mpr fun _ _ => decides.maxLength i member p inside
    rw [List.forall_mem_cons, and_iff_left lengths]
    exact decides.property i member p inside comment commented
  obtain ⟨name, id⟩ := decides.itemTypeNames i member
  have own : ∀ c ∈ [t.entityName i.inBase i.name "ItemTypeName" (itemTypeNameComment i),
      t.memberName false i.inBase i.name "Id" (idComment i)], P c.comment :=
    List.forall_mem_cons.mpr ⟨name, List.forall_mem_singleton.mpr id⟩
  rw [forall_constantClass, decides.itemType i member, List.forall_mem_append,
    and_iff_right own, List.forall_mem_flatten, properties]

theorem forall_viewClass {v : View} (member : v ∈ t.schema.views) {c : ConstantClass}
    (made : t.viewClass v = .ok c) : (∀ x ∈ c.comments, P x) ↔
      k.documentation v.documentation ∧ (∀ c ∈ v.columns, k.member c.toMember) ∧
        ∀ p ∈ v.parameters, k.member p.toMember := by
  obtain ⟨columns, passed, rest⟩ := bind_eq_ok.mp made
  obtain ⟨parameters, passedParameters, same⟩ := bind_eq_ok.mp rest
  cases same
  have columnsMet : (∀ c ∈ columns, P c.comment) ↔ ∀ c ∈ v.columns, k.member c.toMember := by
    refine forall_mem_iff_of_mapM passed fun c inside x each => ?_
    obtain ⟨comment, commented, rfl⟩ := map_eq_ok.mp each
    exact decides.column v member c inside comment commented
  have parametersMet : (∀ c ∈ parameters, P c.comment) ↔
      ∀ p ∈ v.parameters, k.member p.toMember := by
    refine forall_mem_iff_of_mapM passedParameters fun p inside x each => ?_
    obtain ⟨comment, commented, rfl⟩ := map_eq_ok.mp each
    exact decides.viewParameter v member p inside comment commented
  have name : P (t.entityName v.inBase v.name "ViewName" (viewNameComment v)).comment :=
    decides.viewName v member
  rw [forall_constantClass, decides.view v member, List.forall_mem_append,
    List.forall_mem_append, List.forall_mem_singleton, and_iff_right name, columnsMet,
    parametersMet]

theorem forall_rightClass {r : Right} (member : r ∈ t.schema.rights) {c : ConstantClass}
    (made : t.rightClass r = .ok c) : (∀ x ∈ c.comments, P x) ↔
      k.documentation r.documentation ∧ ∀ p ∈ r.parameters, k.member p.toMember := by
  obtain ⟨parameters, passed, rfl⟩ := map_eq_ok.mp made
  have parametersMet : (∀ c ∈ parameters, P c.comment) ↔
      ∀ p ∈ r.parameters, k.member p.toMember := by
    refine forall_mem_iff_of_mapM passed fun p inside x each => ?_
    obtain ⟨comment, commented, rfl⟩ := map_eq_ok.mp each
    exact decides.rightParameter r member p inside comment commented
  have name : P (t.entityName r.inBase r.name "RightName" (rightNameComment r)).comment :=
    decides.rightName r member
  rw [forall_constantClass, decides.right r member, List.forall_mem_cons, and_iff_right name,
    parametersMet]

theorem forall_classes {types : List TypeDeclaration} (made : t.classes = .ok types) :
    (∀ u ∈ types, ∀ c ∈ u.comments, P c) ↔ k.Met t.schema := by
  obtain ⟨itemTypes, passedItemTypes, rest⟩ := bind_eq_ok.mp made
  obtain ⟨views, passedViews, rest⟩ := bind_eq_ok.mp rest
  obtain ⟨rights, passedRights, same⟩ := bind_eq_ok.mp rest
  cases same
  have first := forall_mem_iff_of_mapM passedItemTypes fun i member c made =>
    forall_itemTypeClass decides member made
  have second := forall_mem_iff_of_mapM passedViews fun v member c made =>
    forall_viewClass decides member made
  have third := forall_mem_iff_of_mapM passedRights fun r member c made =>
    forall_rightClass decides member made
  have all : (∀ u ∈ (itemTypes ++ views ++ rights).map TypeDeclaration.constants,
      ∀ c ∈ u.comments, P c) ↔
        ∀ c ∈ itemTypes ++ views ++ rights, ∀ x ∈ c.comments, P x := List.forall_mem_map
  rw [all, List.forall_mem_append, List.forall_mem_append, first, second, third]
  exact ⟨fun ⟨⟨i, v⟩, r⟩ => ⟨i, v, r⟩, fun met => ⟨⟨met.itemTypes, met.views⟩, met.rights⟩⟩

end Classes

/-! ## Files -/

section Files

variable {P : DocComment → Prop}

theorem forall_commentsIn {blocks : List NamespaceBlock} : (∀ c ∈ commentsIn blocks, P c) ↔
    ∀ b ∈ blocks, ∀ u ∈ b.types, ∀ c ∈ u.comments, P c := by
  rw [commentsIn, List.forall_mem_flatMap]
  exact forall₂_congr fun b _ => List.forall_mem_flatMap

variable {s : Schema} {places : EnumPlaces} {k : Criterion} (decides : k.Decides P s places)

include decides

theorem forall_enumerations {es : List EnumType} (members : es ⊆ s.enums) :
    (∀ u ∈ es.map enumeration, ∀ c ∈ u.comments, P c) ↔ ∀ e ∈ es, k.enumType e := by
  rw [List.forall_mem_map]
  refine forall₂_congr fun e inside => ?_
  rw [enumeration, TypeDeclaration.comments, List.map_map, List.forall_mem_cons,
    List.forall_mem_map]
  exact decides.enumeration e (members inside)

theorem forall_identifierClasses {is : List ItemType} (members : is ⊆ s.itemTypes)
    (scope : String) : (∀ u ∈ is.map (identifierClass scope), ∀ c ∈ u.comments, P c) ↔
      ∀ i ∈ is, P (identifierComment i scope) := by
  rw [List.forall_mem_map]
  refine forall₂_congr fun i inside => ?_
  obtain ⟨ofKey, ofIdentifier⟩ := decides.constructors i (members inside)
  rw [identifierClass, TypeDeclaration.comments, List.forall_mem_cons]
  exact and_iff_left (List.forall_mem_cons.mpr ⟨ofKey, List.forall_mem_singleton.mpr ofIdentifier⟩)

theorem forall_lengths : ∀ c ∈ (lengths s).comments, P c := by
  refine List.forall_mem_cons.mpr ⟨decides.lengths, List.forall_mem_flatMap.mpr ?_⟩
  refine List.forall_mem_map.mpr fun i member => forall_constantClass.mpr ⟨?_, ?_⟩
  · exact decides.itemTypeLengths i member
  · refine List.forall_mem_flatMap.mpr fun p inside => List.forall_mem_map.mpr fun n _ => ?_
    exact decides.maxLength i member p inside

theorem forall_componentsHelper {names : HelperNamespaces} :
    (∀ c ∈ commentsIn (componentsHelper s names), P c) ↔ ∀ e ∈ s.enums, k.enumType e := by
  rw [forall_commentsIn, componentsHelper, List.forall_mem_singleton, List.forall_mem_append,
    and_iff_left (List.forall_mem_singleton.mpr (forall_lengths decides))]
  exact forall_enumerations decides fun _ inside => inside

omit decides

theorem forall_storageHelper {names : HelperNamespaces}
    (decides : k.Decides P s (Setting.ofBase s names).enums) {storage : List NamespaceBlock}
    (made : storageHelper s names = .ok storage) : (∀ c ∈ commentsIn storage, P c) ↔
      k.Met s ∧ ∀ i ∈ s.itemTypes, P (identifierComment i names.baseSchema) := by
  obtain ⟨types, classes, rfl⟩ := map_eq_ok.mp made
  rw [forall_commentsIn, List.forall_mem_cons, List.forall_mem_singleton]
  exact and_congr (forall_classes decides classes)
    (forall_identifierClasses decides (fun _ inside => inside) names.baseSchema)

theorem forall_derivedHelper {names : HelperNamespaces} {enumNamespace schemaNamespace : String}
    (decides : k.Decides P s (Setting.ofDerived s names enumNamespace).enums)
    {derived : List NamespaceBlock}
    (made : derivedHelper s names enumNamespace schemaNamespace = .ok derived) :
    (∀ c ∈ commentsIn derived, P c) ↔
      k.Met s ∧ (∀ e ∈ s.enums.filter fun e => !e.inBase, k.enumType e) ∧
        ∀ i ∈ s.itemTypes.filter fun i => !i.inBase, P (identifierComment i schemaNamespace) := by
  obtain ⟨types, classes, rfl⟩ := map_eq_ok.mp made
  rw [forall_commentsIn, List.forall_mem_cons, List.forall_mem_singleton, List.forall_mem_append]
  exact and_congr (forall_classes decides classes)
    (and_congr (forall_enumerations decides (List.filter_subset_self _))
      (forall_identifierClasses decides (List.filter_subset_self _) schemaNamespace))

end Files

/-! ## Enclosed comments -/

/-- Comments are enclosed if the texts that they show are contained. -/
def containing (s : Schema) (places : EnumPlaces) : Criterion where
  documentation d := ∀ x ∈ documentationTexts d, Contained x
  property p := ∀ x ∈ propertyTexts s places p, Contained x
  member m := ∀ x ∈ memberTexts s places m, Contained x
  enumType e := ∀ x ∈ enumTexts e, Contained x

theorem enclosed_enumeration {e : EnumType} (h : e.Sound) :
    (enumComment e).Enclosed ∧ (∀ v ∈ e.values, (enumValueComment v).Enclosed) ↔
      ∀ x ∈ enumTexts e, Contained x := by
  have values : (∀ v ∈ e.values, (enumValueComment v).Enclosed) ↔
      ∀ v ∈ e.values, ∀ x ∈ v.documentation.toList.flatMap trimmedLines, Contained x :=
    forall₂_congr fun v member => enclosed_enumValueComment (h.values v member)
  rw [enumTexts, List.forall_mem_append, List.forall_mem_flatMap, enclosed_enumComment h, values]

theorem met_containing {s : Schema} {places : EnumPlaces} :
    (containing s places).Met s ↔ ∀ x ∈ classTexts s places, Contained x := by
  simp only [classTexts, itemTypeTexts, viewTexts, rightTexts, List.forall_mem_append,
    List.forall_mem_flatMap, and_assoc]
  exact ⟨fun met => ⟨met.itemTypes, met.views, met.rights⟩, fun ⟨i, v, r⟩ => ⟨i, v, r⟩⟩

theorem decides_containing {d : Drafts} (sound : d.Sound) (places : EnumPlaces) :
    (containing d.toSchema places).Decides DocComment.Enclosed d.toSchema places where
  itemType i member := enclosed_itemTypeComment (sound.itemTypes i member)
  constructors i member :=
    ⟨enclosed_identifierOfKeyComment (sound.itemTypes i member),
      enclosed_identifierOfIdentifierComment (sound.itemTypes i member)⟩
  itemTypeLengths i member :=
    enclosed_naming (sound.itemTypes i member).name (by decide) (by decide)
  lengths := DocComment.enclosed_ofSummary.mpr (containedLine_of_oneLine (by decide))
  itemTypeNames i member :=
    ⟨enclosed_naming (sound.itemTypes i member).name (by decide) (by decide),
      enclosed_idComment (sound.itemTypes i member)⟩
  property i member p inside _ made :=
    enclosed_propertyComment sound (sound.itemTypes i member).name
      ((sound.itemTypes i member).properties p inside) made
  maxLength i member p inside :=
    enclosed_maxLengthComment ((sound.itemTypes i member).properties p inside).member.name
  view v member := enclosed_viewComment (sound.views v member)
  viewName v member := enclosed_naming (sound.views v member).name (by decide) (by decide)
  column v member c inside _ made :=
    enclosed_columnComment sound (sound.views v member).name
      ((sound.views v member).columns c inside) made
  viewParameter v member p inside _ made :=
    enclosed_parameterComment sound ((sound.views v member).parameters p inside)
      (sound.views v member).name made
  right r member := enclosed_rightComment (sound.rights r member)
  rightName r member := enclosed_naming (sound.rights r member).name (by decide) (by decide)
  rightParameter r member p inside _ made :=
    enclosed_parameterComment sound ((sound.rights r member).parameters p inside)
      (sound.rights r member).name made
  enumeration e member := enclosed_enumeration (sound.enums e member)

/-- The comments of identifier classes show the namespace of the class of the item type. -/
theorem enclosed_identifierComments {is : List ItemType} (sound : ∀ i ∈ is, i.Sound)
    (scope : String) : (∀ i ∈ is, (identifierComment i scope).Enclosed) ↔
      ∀ x ∈ is.map fun _ => scope, Contained x := by
  rw [List.forall_mem_map]
  exact forall₂_congr fun i member => enclosed_identifierComment (sound i member) scope

/-- The texts in the comments of the components helper. -/
def componentsTexts (s : Schema) : List String :=
  s.enums.flatMap enumTexts

/-- The texts in the comments of the storage helper. -/
def storageTexts (s : Schema) (names : HelperNamespaces) : List String :=
  classTexts s (Setting.ofBase s names).enums ++ s.itemTypes.map fun _ => names.baseSchema

/-- The texts in the comments of the helper of a derived schema. -/
def derivedTexts (s : Schema) (names : HelperNamespaces)
    (enumNamespace schemaNamespace : String) : List String :=
  classTexts s (Setting.ofDerived s names enumNamespace).enums ++
    (s.enums.filter fun e => !e.inBase).flatMap enumTexts ++
      (s.itemTypes.filter fun i => !i.inBase).map fun _ => schemaNamespace

/-- The comments of a file hold its texts. -/
structure Encloses (blocks : List NamespaceBlock) (texts : List String) : Prop where
  /-- The comments are written with all their lines. -/
  written : ∀ c ∈ commentsIn blocks, ∃ level before after,
    fileText blocks = before ++ renderLines (indentedBy level c.lines) ++ after
  /-- No line is outside of its comment exactly if none of the texts has one outside. -/
  enclosed_iff : (∀ c ∈ commentsIn blocks, c.Enclosed) ↔ ∀ x ∈ texts, Contained x

/-- A text that is not contained leaves a comment. -/
theorem Encloses.exists_left {blocks : List NamespaceBlock} {texts : List String}
    (h : Encloses blocks texts) {x : String} (member : x ∈ texts) (leaves : ¬ Contained x) :
    ∃ c ∈ commentsIn blocks, ¬ c.Enclosed := by
  by_contra none_left
  push Not at none_left
  exact leaves (h.enclosed_iff.mp none_left x member)

section Encloses

variable {s : Schema} (finished : s.Finished) {names : HelperNamespaces}

include finished

theorem encloses_componentsHelper : Encloses (componentsHelper s names) (componentsTexts s) := by
  obtain ⟨d, sound, -, rfl⟩ := finished.drafts
  refine ⟨fun c => written_of_mem_commentsIn, ?_⟩
  rw [componentsTexts, List.forall_mem_flatMap]
  exact forall_componentsHelper (decides_containing sound (Setting.ofBase d.toSchema names).enums)

theorem encloses_storageHelper {storage : List NamespaceBlock}
    (made : storageHelper s names = .ok storage) : Encloses storage (storageTexts s names) := by
  obtain ⟨d, sound, -, rfl⟩ := finished.drafts
  refine ⟨fun c => written_of_mem_commentsIn, ?_⟩
  have itemTypes : ∀ i ∈ d.toSchema.itemTypes, i.Sound := sound.itemTypes
  rw [forall_storageHelper (decides_containing sound _) made, met_containing,
    enclosed_identifierComments itemTypes, storageTexts, List.forall_mem_append]

theorem encloses_derivedHelper {enumNamespace schemaNamespace : String}
    {derived : List NamespaceBlock}
    (made : derivedHelper s names enumNamespace schemaNamespace = .ok derived) :
    Encloses derived (derivedTexts s names enumNamespace schemaNamespace) := by
  obtain ⟨d, sound, -, rfl⟩ := finished.drafts
  refine ⟨fun c => written_of_mem_commentsIn, ?_⟩
  have itemTypes : ∀ i ∈ d.toSchema.itemTypes.filter fun i => !i.inBase, i.Sound :=
    fun i kept => sound.itemTypes i (List.mem_filter.mp kept).1
  rw [forall_derivedHelper (decides_containing sound _) made, met_containing,
    enclosed_identifierComments itemTypes, derivedTexts, List.forall_mem_append,
    List.forall_mem_append, List.forall_mem_flatMap, and_assoc]
  exact Iff.rfl

end Encloses

/-- The helper files of a finished schema are made, and each line of each comment in them is a
comment line exactly if the texts that they show are contained, whatever the namespaces. -/
theorem encloses_of_finished {s : Schema} (finished : s.Finished) (names : HelperNamespaces)
    (enumNamespace schemaNamespace : String) :
    ∃ storage derived, storageHelper s names = .ok storage ∧
      derivedHelper s names enumNamespace schemaNamespace = .ok derived ∧
        Encloses (componentsHelper s names) (componentsTexts s) ∧
        Encloses storage (storageTexts s names) ∧
        Encloses derived (derivedTexts s names enumNamespace schemaNamespace) := by
  obtain ⟨storage, derived, made, madeDerived⟩ :=
    exists_helpers finished names enumNamespace schemaNamespace
  exact ⟨storage, derived, made, madeDerived, encloses_componentsHelper finished,
    encloses_storageHelper finished made, encloses_derivedHelper finished madeDerived⟩

theorem encloses_sample : Sample.schema.Finished ∧ ∃ storage derived,
    storageHelper Sample.schema {} = .ok storage ∧
      derivedHelper Sample.schema {} "Pets" "Pets.Schema" = .ok derived ∧
        Encloses (componentsHelper Sample.schema {}) (componentsTexts Sample.schema) ∧
        Encloses storage (storageTexts Sample.schema {}) ∧
        Encloses derived (derivedTexts Sample.schema {} "Pets" "Pets.Schema") :=
  ⟨Sample.schema_finished, encloses_of_finished Sample.schema_finished {} "Pets" "Pets.Schema"⟩

namespace Sample

/-- A file in which the documentation of a value and the default of a property go on behind a
line end. -/
def leavingFile : List Char :=
  (Schema.Sample.opening ++
    ["<Enum Name=\"Mood\">", "<Values>", "<Value Name=\"Fine\" ", "Value=\"1\">",
      "<Documentation>", "Well.\u2028", "public class Well;", "</Documentation>", "</Value>",
      "</Values>", "</Enum>", "<ItemType Name=\"Pet\">", "<Properties>",
      "<Property Name=\"Name\" ", "Type=\"String\">", "<Default>A\n", "public class Evil;",
      "</Default>", "</Property>", "</Properties>", "</ItemType>", "</StoreSchema>"]).flatMap
    String.toList

def nameProperty : Property :=
  { name := "Name", valueType := .string, itemTypeName := none, enumName := none
    documentation := {}, inBase := false, owner := "Pet", nullable := false, length := none
    cascadeDelete := false, rowGuid := false
    default := some (.literal (.string "A\npublic class Evil;")), constraints := [] }

def leavingSchema : Schema :=
  ⟨[⟨"Mood", [⟨"Fine", 1, some "Well.\u2028public class Well;"⟩], {}, false⟩],
    [⟨"Pet", [nameProperty], [], [], [], [], [], [], {}, false⟩], [], [], [], []⟩

theorem leavingSchema_finished : leavingSchema.Finished :=
  finished_of_schemaOf? leavingFile "leaving.xml" false
    (schemaOf?_of_spelledOut (by repeat constructor) (by decide +kernel))

end Sample

/-- Behind a line end in a default or in documentation, a text goes on outside of its comment. -/
theorem leaving_sample : Sample.leavingSchema.Finished ∧ ∃ storage derived,
    storageHelper Sample.leavingSchema {} = .ok storage ∧
      derivedHelper Sample.leavingSchema {} "Pets" "Pets.Schema" = .ok derived ∧
        ∀ file ∈ [componentsHelper Sample.leavingSchema {}, storage, derived],
          ∃ c ∈ commentsIn file, ¬ c.Enclosed := by
  have finished := Sample.leavingSchema_finished
  obtain ⟨storage, derived, made, madeDerived⟩ :=
    exists_helpers finished {} "Pets" "Pets.Schema"
  have value : ¬ Contained "Well.\u2028public class Well;" := by decide
  have default : ¬ Contained "A\npublic class Evil;" := by decide
  refine ⟨finished, storage, derived, made, madeDerived, ?_⟩
  simp only [List.forall_mem_cons]
  refine ⟨?_, ?_, ?_, nofun⟩
  · exact (encloses_componentsHelper finished).exists_left (by decide +kernel) value
  · exact (encloses_storageHelper finished made).exists_left (by decide +kernel) default
  · exact (encloses_derivedHelper finished madeDerived).exists_left (by decide +kernel) default

end LearningStore.Helper
