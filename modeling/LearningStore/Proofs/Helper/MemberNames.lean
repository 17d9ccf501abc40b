import LearningStore.Proofs.Helper.References

/-!
# Names in helper files

A helper file mixes names that a schema declares with names that are made up for them: the
constants for the name and the key of an element, the lengths of properties, the classes of
identifiers and the class of all lengths.  Made-up names never meet each other.  A declared
name meets one only if it is spelled like it, and only a view may declare a name twice.
-/

namespace LearningStore.Helper

open LearningStore.Schema

/-! ## Members of a type -/

/-- Constructors are told apart by their parameters. -/
def Constructor.signature (c : Constructor) : String :=
  c.name ++ "(" ++ c.parameters ++ ")"

namespace TypeDeclaration

/-- The names of what a type declares inside. -/
def memberNames : TypeDeclaration → List String
  | constants c => c.constants.map Constant.name
  | enumeration e => e.members.map EnumMember.name
  | identifier c => c.constructors.map Constructor.signature
  | group c => c.classes.map ConstantClass.name

/-- A type and the classes inside of it. -/
def withInner : TypeDeclaration → List TypeDeclaration
  | group c => group c :: c.classes.map constants
  | t => [t]

end TypeDeclaration

/-- The names of the constants for a property. -/
def propertyNames (p : Property) : List String :=
  p.name :: p.maxLength.toList.map fun _ => p.maxLengthConstant

/-- The names of the constants in the class of an item type. -/
def itemTypeNames (i : ItemType) : List String :=
  "ItemTypeName" :: "Id" :: i.properties.flatMap propertyNames

/-- The names that a view declares. -/
def viewMembers (v : View) : List String :=
  (v.columns.map fun c => c.name) ++ v.parameters.map fun p => p.name

/-- The names of the constants in the class of a view. -/
def viewNames (v : View) : List String :=
  "ViewName" :: viewMembers v

/-- The names of the constants in the class of a right. -/
def rightNames (r : Right) : List String :=
  "RightName" :: r.parameters.map fun p => p.name

/-- The classes of a schema and the names of the constants in them. -/
def classNames (s : Schema) : List (String × List String) :=
  s.itemTypes.map (fun i => (i.name, itemTypeNames i)) ++
    s.views.map (fun v => (v.name, viewNames v)) ++ s.rights.map fun r => (r.name, rightNames r)

/-! ## Classes of constants -/

theorem names_propertyEntries (blocks : List NamespaceBlock) (p : Property) :
    (propertyEntries blocks p).map Entry.name = propertyNames p := by
  rw [propertyEntries, List.map_cons, List.map_map]
  rfl

theorem names_entries (blocks : List NamespaceBlock) (s : Schema) :
    (outlines blocks s).map (fun o => (o.name, o.entries.map Entry.name)) = classNames s := by
  have properties (i : ItemType) : (i.properties.flatMap (propertyEntries blocks)).map Entry.name =
      i.properties.flatMap propertyNames := by
    rw [List.map_flatMap]
    exact congrArg (i.properties.flatMap ·) (funext (names_propertyEntries blocks))
  simp only [outlines, classNames, List.map_append, List.map_map]
  congr 1
  · congr 1
    · refine List.map_congr_left fun i _ => Prod.ext rfl ?_
      exact congrArg (["ItemTypeName", "Id"] ++ ·) (properties i)
    · refine List.map_congr_left fun v _ => Prod.ext rfl ?_
      simp [viewOutline, viewNames, viewMembers, columnEntry, parameterEntry, Function.comp_def]
  · refine List.map_congr_left fun r _ => Prod.ext rfl ?_
    simp [rightOutline, rightNames, parameterEntry, Function.comp_def]

/-- The names in a class are those of the outline that it follows. -/
theorem names_of_writesClass {t : Setting} {o : Outline} {k : ConstantClass}
    (written : t.WritesClass o k) :
    (o.name, o.entries.map Entry.name) = (k.name, k.constants.map Constant.name) := by
  have names := written.constants.imp fun e c constant => constant.name.symm
  have same := List.forall₂_map_left_iff.mpr (List.forall₂_map_right_iff.mpr names)
  rw [List.forall₂_eq_eq_eq] at same
  exact Prod.ext written.name.symm same

theorem names_of_writes {t : Setting} {blocks : List NamespaceBlock} {s : Schema}
    {cs : List ConstantClass} (written : List.Forall₂ t.WritesClass (outlines blocks s) cs) :
    cs.map (fun k => (k.name, k.constants.map Constant.name)) = classNames s := by
  have pairs := written.imp fun o k => names_of_writesClass
  have same := List.forall₂_map_left_iff.mpr (List.forall₂_map_right_iff.mpr pairs)
  rw [List.forall₂_eq_eq_eq] at same
  rw [← same, names_entries]

/-- Classes have the names of the elements that they stand for. -/
theorem names_classes {t : Setting} {os : List Outline} {cs : List ConstantClass}
    (written : List.Forall₂ t.WritesClass os cs) :
    os.map Outline.name = (cs.map TypeDeclaration.constants).map TypeDeclaration.name := by
  have pairs := written.imp fun o k class_written => class_written.name.symm
  have same := List.forall₂_map_left_iff.mpr (List.forall₂_map_right_iff.mpr pairs)
  rw [List.forall₂_eq_eq_eq] at same
  rw [same, List.map_map]
  rfl

/-! ## Item types, views and rights -/

/-- No property is named like a constant that is made up for the item type or for one of its
properties. -/
structure PlainProperties (i : ItemType) : Prop where
  itemTypeName : ∀ p ∈ i.properties, p.name ≠ "ItemTypeName"
  maxLength : ∀ p ∈ i.properties, ∀ q ∈ i.properties, q.maxLength.isSome →
    p.name ≠ q.maxLengthConstant

theorem mem_propertyNames {p : Property} {name : String} :
    name ∈ propertyNames p ↔ name = p.name ∨ p.maxLength.isSome ∧ name = p.maxLengthConstant := by
  cases bounded : p.maxLength with
  | none => simp [propertyNames, bounded]
  | some n => simp [propertyNames, bounded]

/-- The constant of a length begins with its own letter. -/
theorem maxLengthConstant_ne {p : Property} {name : String}
    (other : name.toList.head? ≠ some 'M') : p.maxLengthConstant ≠ name := by
  rintro rfl
  rw [Property.maxLengthConstant, String.toList_append, String.toList_append] at other
  exact other rfl

theorem notMem_propertyNames {p : Property} {name : String} (declared : p.name ≠ name)
    (other : name.toList.head? ≠ some 'M') : name ∉ propertyNames p := by
  intro inside
  rcases mem_propertyNames.mp inside with same | ⟨-, same⟩
  · exact declared same.symm
  · exact maxLengthConstant_ne other same.symm

theorem disjoint_propertyNames {i : ItemType} (plain : PlainProperties i) {p q : Property}
    (first : p ∈ i.properties) (second : q ∈ i.properties) (different : p.name ≠ q.name) :
    List.Disjoint (propertyNames p) (propertyNames q) := by
  intro name inside inside'
  rcases mem_propertyNames.mp inside with rfl | ⟨bounded, rfl⟩ <;>
    rcases mem_propertyNames.mp inside' with same | ⟨bounded', same⟩
  · exact different same
  · exact plain.maxLength p first q second bounded' same
  · exact plain.maxLength q second p first bounded same.symm
  · exact different (maxLengthConstant_injective same)

theorem nodup_propertyNames {i : ItemType} (plain : PlainProperties i) {p : Property}
    (inside : p ∈ i.properties) : (propertyNames p).Nodup := by
  cases bounded : p.maxLength with
  | none =>
      rw [propertyNames, bounded]
      exact List.nodup_singleton _
  | some n =>
      have different := plain.maxLength p inside p inside (by rw [bounded]; rfl)
      rw [propertyNames, bounded]
      exact List.nodup_cons.mpr ⟨List.mem_singleton.not.mpr different, List.nodup_singleton _⟩

theorem nodup_itemTypeNames {i : ItemType} (sound : i.Sound) (plain : PlainProperties i) :
    (itemTypeNames i).Nodup := by
  have properties : (i.properties.flatMap propertyNames).Nodup := by
    rw [List.nodup_flatMap]
    refine ⟨fun p => nodup_propertyNames plain, ?_⟩
    have different := List.pairwise_map.mp sound.distinct
    exact different.imp_of_mem fun first second names =>
      disjoint_propertyNames plain first second names
  have noKey : "Id" ∉ i.properties.flatMap propertyNames := by
    intro inside
    obtain ⟨p, member, named⟩ := List.mem_flatMap.mp inside
    exact notMem_propertyNames (sound.properties p member).name_ne (by decide) named
  have noName : "ItemTypeName" ∉ i.properties.flatMap propertyNames := by
    intro inside
    obtain ⟨p, member, named⟩ := List.mem_flatMap.mp inside
    exact notMem_propertyNames (plain.itemTypeName p member) (by decide) named
  refine List.nodup_cons.mpr ⟨?_, List.nodup_cons.mpr ⟨noKey, properties⟩⟩
  exact List.not_mem_cons_of_ne_of_not_mem (by decide) noName

/-! ## Other types -/

section Types

variable {s : Schema}

theorem nodup_signatures (scope : String) (i : ItemType) :
    (identifierClass scope i).memberNames.Nodup := by
  refine List.nodup_cons.mpr ⟨?_, List.nodup_singleton _⟩
  intro inside
  have same := congrArg String.toList (List.mem_singleton.mp inside)
  simp only [Constructor.signature, String.toList_append, List.append_assoc] at same
  exact absurd (List.append_cancel_left same) (by decide)

theorem names_identifierClasses (scope : String) (is : List ItemType) :
    (is.map (identifierClass scope)).map TypeDeclaration.name =
      is.map fun i => i.name ++ "Identifier" := by
  rw [List.map_map]
  rfl

theorem names_enumerations (es : List EnumType) :
    (es.map enumeration).map TypeDeclaration.name = es.map EnumType.name := by
  rw [List.map_map]
  rfl

theorem nodup_identifierNames {is : List ItemType} (distinct : (is.map ItemType.name).Nodup) :
    (is.map fun i => i.name ++ "Identifier").Nodup := by
  refine List.pairwise_map.mpr ((List.pairwise_map.mp distinct).imp fun different same => ?_)
  have characters := congrArg String.toList same
  rw [String.toList_append, String.toList_append] at characters
  exact different (String.toList_inj.mp (List.append_cancel_right characters))

/-- The lengths of an item type have the names of its properties in them. -/
theorem nodup_lengthNames {ps : List Property} (distinct : (ps.map fun p => p.name).Nodup) :
    ((ps.flatMap lengthConstant).map Constant.name).Nodup := by
  have names : (ps.flatMap lengthConstant).map Constant.name =
      (ps.filter fun p => p.maxLength.isSome).map Property.maxLengthConstant := by
    induction ps with
    | nil => rfl
    | cons p rest ih =>
        have others := ih (List.nodup_cons.mp distinct).2
        rw [List.flatMap_cons, List.map_append, others, lengthConstant, List.filter_cons]
        cases p.maxLength with
        | none => rfl
        | some n => rfl
  rw [names]
  refine List.pairwise_map.mpr (((List.pairwise_map.mp distinct).filter _).imp ?_)
  exact fun different same => different (maxLengthConstant_injective same)

theorem nodup_lengths (named : s.Named)
    (distinct : ∀ i ∈ s.itemTypes, (i.properties.map fun p => p.name).Nodup) :
    ∀ t ∈ (lengths s).withInner, t.memberNames.Nodup := by
  refine List.forall_mem_cons.mpr ⟨?_, List.forall_mem_map.mpr (List.forall_mem_map.mpr ?_)⟩
  · have classes : (lengths s).memberNames = s.itemTypes.map ItemType.name := List.map_map
    exact classes ▸ named.itemTypes_distinct
  · intro i member
    exact nodup_lengthNames (distinct i member)

/-- The types of the components helper. -/
theorem nodup_componentTypes (named : s.Named)
    (plain : lengthsClass ∉ s.enums.map EnumType.name) (names : HelperNamespaces) :
    ∀ b ∈ componentsHelper s names, (b.types.map TypeDeclaration.name).Nodup := by
  rw [componentsHelper, List.forall_mem_singleton, List.map_append, names_enumerations,
    List.map_singleton]
  refine List.nodup_append.mpr ⟨named.enums_distinct, List.nodup_singleton _, ?_⟩
  intro name declared other member same
  have made_up : other = lengthsClass := List.mem_singleton.mp member
  exact plain (made_up ▸ same ▸ declared)

/-- The types of the storage helper. -/
theorem nodup_storageTypes (named : s.Named) {names : HelperNamespaces}
    {storage : List NamespaceBlock} (made : storageHelper s names = .ok storage) :
    ∀ b ∈ storage, (b.types.map TypeDeclaration.name).Nodup := by
  obtain ⟨types, classes, rfl⟩ := map_eq_ok.mp made
  have tags := enumsDeclared_base s names []
  obtain ⟨cs, rfl, written⟩ := Setting.writes_classes tags classes
  refine List.forall_mem_cons.mpr ⟨?_, List.forall_mem_singleton.mpr ?_⟩
  · exact names_classes written ▸ names_outlines_distinct named
  · rw [names_identifierClasses]
    exact nodup_identifierNames named.itemTypes_distinct

/-- No enum that the helper of a derived schema declares is named like one of its classes of
identifiers. -/
def PlainEnums (s : Schema) : Prop :=
  ∀ e ∈ s.enums, e.inBase = false → ∀ i ∈ s.itemTypes, i.inBase = false →
    e.name ≠ i.name ++ "Identifier"

/-- The types of the helper of a derived schema. -/
theorem nodup_derivedTypes (named : s.Named) (plain : PlainEnums s) {names : HelperNamespaces}
    {enumNamespace schemaNamespace : String} {derived : List NamespaceBlock}
    (made : derivedHelper s names enumNamespace schemaNamespace = .ok derived) :
    ∀ b ∈ derived, (b.types.map TypeDeclaration.name).Nodup := by
  have tags : EnumsDeclared (componentsHelper s names ++ [] ++ derived) s
      (Setting.ofDerived s names enumNamespace).enums := enumsDeclared_derived rfl made
  obtain ⟨types, classes, rfl⟩ := map_eq_ok.mp made
  obtain ⟨cs, rfl, written⟩ := Setting.writes_classes tags classes
  refine List.forall_mem_cons.mpr ⟨?_, List.forall_mem_singleton.mpr ?_⟩
  · exact names_classes written ▸ names_outlines_distinct named
  · have enums : ((s.enums.filter fun e => !e.inBase).map EnumType.name).Nodup :=
      named.enums_distinct.sublist (List.filter_sublist.map _)
    have itemTypes : ((s.itemTypes.filter fun i => !i.inBase).map ItemType.name).Nodup :=
      named.itemTypes_distinct.sublist (List.filter_sublist.map _)
    rw [List.map_append, names_enumerations, names_identifierClasses]
    refine List.nodup_append.mpr ⟨enums, nodup_identifierNames itemTypes, ?_⟩
    intro name declared other made_up same
    obtain ⟨e, own, rfl⟩ := List.mem_map.mp declared
    obtain ⟨i, own', rfl⟩ := List.mem_map.mp made_up
    obtain ⟨known, marked⟩ := List.mem_filter.mp own
    obtain ⟨known', marked'⟩ := List.mem_filter.mp own'
    rw [Bool.not_eq_true'] at marked marked'
    exact plain e known marked i known' marked' same

end Types

/-! ## All files -/

/-- What holds of the names in the three helper files of a schema. -/
structure NamesFit (s : Schema) (components storage derived : List NamespaceBlock) : Prop where
  /-- The classes of constants hold what the schema declares and what is made up for it, and
  nothing else. -/
  storage_classes : (classesIn storage).map (fun k => (k.name, k.constants.map Constant.name)) =
    classNames s
  derived_classes : (classesIn derived).map (fun k => (k.name, k.constants.map Constant.name)) =
    classNames s
  itemTypes : ∀ i ∈ s.itemTypes, PlainProperties i → (itemTypeNames i).Nodup
  /-- Nothing keeps a view from declaring a name twice. -/
  views : ∀ v ∈ s.views, (viewMembers v).Nodup → "ViewName" ∉ viewMembers v → (viewNames v).Nodup
  rights : ∀ r ∈ s.rights, (∀ p ∈ r.parameters, p.name ≠ "RightName") → (rightNames r).Nodup
  /-- Enums, classes of identifiers and lengths never declare a name twice. -/
  others : ∀ b ∈ components ++ storage ++ derived, ∀ t ∈ b.types, t.constantClass? = none →
    ∀ u ∈ t.withInner, u.memberNames.Nodup
  component_types : lengthsClass ∉ s.enums.map EnumType.name →
    ∀ b ∈ components, (b.types.map TypeDeclaration.name).Nodup
  storage_types : ∀ b ∈ storage, (b.types.map TypeDeclaration.name).Nodup
  derived_types : PlainEnums s → ∀ b ∈ derived, (b.types.map TypeDeclaration.name).Nodup

/-- A type without constants of its own is an enum, a class of identifiers or the lengths. -/
theorem other_cases {s : Schema} {names : HelperNamespaces}
    {enumNamespace schemaNamespace : String} {storage derived : List NamespaceBlock}
    (made : storageHelper s names = .ok storage)
    (madeDerived : derivedHelper s names enumNamespace schemaNamespace = .ok derived)
    {b : NamespaceBlock} (listed : b ∈ componentsHelper s names ++ storage ++ derived)
    {t : TypeDeclaration} (held : t ∈ b.types) (other : t.constantClass? = none) :
    (∃ e ∈ s.enums, t = enumeration e) ∨
      (∃ i ∈ s.itemTypes, ∃ scope, t = identifierClass scope i) ∨ t = lengths s := by
  have tags : EnumsDeclared (componentsHelper s names ++ [] ++ derived) s
      (Setting.ofDerived s names enumNamespace).enums := enumsDeclared_derived rfl madeDerived
  obtain ⟨types, classes, rfl⟩ := map_eq_ok.mp made
  obtain ⟨own, ownClasses, rfl⟩ := map_eq_ok.mp madeDerived
  obtain ⟨cs, rfl, -⟩ := Setting.writes_classes (enumsDeclared_base s names []) classes
  obtain ⟨ks, rfl, -⟩ := Setting.writes_classes tags ownClasses
  have noClass {ls : List ConstantClass} : t ∉ ls.map TypeDeclaration.constants := by
    intro inside
    obtain ⟨k, -, rfl⟩ := List.mem_map.mp inside
    cases other
  simp only [componentsHelper, List.mem_append, List.mem_cons, List.not_mem_nil, or_false]
    at listed
  rcases listed with (rfl | rfl | rfl) | rfl | rfl
  · rcases List.mem_append.mp held with enum | group
    · obtain ⟨e, known, rfl⟩ := List.mem_map.mp enum
      exact .inl ⟨e, known, rfl⟩
    · exact .inr (.inr (List.mem_singleton.mp group))
  · exact absurd held noClass
  · obtain ⟨i, known, rfl⟩ := List.mem_map.mp held
    exact .inr (.inl ⟨i, known, _, rfl⟩)
  · exact absurd held noClass
  · rcases List.mem_append.mp held with enum | identifier
    · obtain ⟨e, known, rfl⟩ := List.mem_map.mp enum
      exact .inl ⟨e, (List.mem_filter.mp known).1, rfl⟩
    · obtain ⟨i, known, rfl⟩ := List.mem_map.mp identifier
      exact .inr (.inl ⟨i, (List.mem_filter.mp known).1, _, rfl⟩)

theorem namesFit_of_made {d : Drafts} (sound : d.Sound) {names : HelperNamespaces}
    {enumNamespace schemaNamespace : String} {storage derived : List NamespaceBlock}
    (made : storageHelper d.toSchema names = .ok storage)
    (madeDerived : derivedHelper d.toSchema names enumNamespace schemaNamespace = .ok derived) :
    NamesFit d.toSchema (componentsHelper d.toSchema names) storage derived := by
  have named := sound.named
  have tags := enumsDeclared_base d.toSchema names []
  have ownTags : EnumsDeclared (componentsHelper d.toSchema names ++ [] ++ derived) d.toSchema
      (Setting.ofDerived d.toSchema names enumNamespace).enums :=
    enumsDeclared_derived rfl madeDerived
  constructor
  case storage_classes => exact names_of_writes (stores_storageHelper tags made).written
  case derived_classes => exact names_of_writes (writes_derivedHelper ownTags madeDerived)
  case itemTypes => exact fun i member => nodup_itemTypeNames (sound.itemTypes i member)
  case views => exact fun v _ distinct plain => List.nodup_cons.mpr ⟨plain, distinct⟩
  case rights =>
    intro r member plain
    refine List.nodup_cons.mpr ⟨fun inside => ?_, (sound.rights r member).distinct⟩
    obtain ⟨p, held, same⟩ := List.mem_map.mp inside
    exact plain p held same
  case others =>
    intro b listed t held other
    rcases other_cases made madeDerived listed held other with
      ⟨e, known, rfl⟩ | ⟨i, known, scope, rfl⟩ | rfl
    · refine List.forall_mem_singleton.mpr ?_
      have values : (enumeration e).memberNames = e.values.map EnumValue.name := List.map_map
      exact values ▸ (sound.enums e known).distinct
    · exact List.forall_mem_singleton.mpr (nodup_signatures scope i)
    · exact nodup_lengths named fun i member => (sound.itemTypes i member).distinct
  case component_types => exact fun plain => nodup_componentTypes named plain names
  case storage_types => exact nodup_storageTypes named made
  case derived_types => exact fun plain => nodup_derivedTypes named plain madeDerived

/-- The helper files of a finished schema are made, and their names fit, whatever the
namespaces. -/
theorem namesFit_of_finished {s : Schema} (finished : s.Finished) (names : HelperNamespaces)
    (enumNamespace schemaNamespace : String) :
    ∃ storage derived, storageHelper s names = .ok storage ∧
      derivedHelper s names enumNamespace schemaNamespace = .ok derived ∧
        NamesFit s (componentsHelper s names) storage derived := by
  obtain ⟨storage, derived, made, madeDerived⟩ :=
    exists_helpers finished names enumNamespace schemaNamespace
  obtain ⟨d, sound, -, rfl⟩ := finished.drafts
  exact ⟨storage, derived, made, madeDerived, namesFit_of_made sound made madeDerived⟩

theorem namesFit_sample : Sample.schema.Finished ∧ ∃ storage derived,
    storageHelper Sample.schema {} = .ok storage ∧
      derivedHelper Sample.schema {} "Pets" "Pets.Schema" = .ok derived ∧
        NamesFit Sample.schema (componentsHelper Sample.schema {}) storage derived :=
  ⟨Sample.schema_finished, namesFit_of_finished Sample.schema_finished {} "Pets" "Pets.Schema"⟩

namespace Sample

/-- A file with a view that declares a parameter twice, beside a column of the same name, and
with names that are spelled like made-up ones. -/
def repeatingFile : List Char :=
  (Schema.Sample.opening ++
    ["<Enum Name=\"BaseSchemaInternal\">", "<Values/></Enum>", "<Enum Name=\"PetIdentifier\">",
      "<Values/></Enum>", "<ItemType Name=\"Pet\">", "<Properties>", "<Property Name=",
      "\"ItemTypeName\" ", "Type=\"Int32\"/>", "<Property Name=\"Title\" ", "Type=\"String\" ",
      "Length=\"5\"/>", "<Property Name=", "\"MaxTitleLength\" ", "Type=\"Int32\"/>",
      "</Properties>", "</ItemType>", "<View Name=\"Pets\">", "<Columns>", "<Column Name=",
      "\"ViewName\" ", "Type=\"Int32\"/>", "<Column Name=\"P\" ", "Type=\"Int32\"/>",
      "</Columns>", "<Parameters>", "<Parameter Name=\"P\" ", "Type=\"Int32\"/>",
      "<Parameter Name=\"P\" ", "Type=\"Int32\"/>", "</Parameters>", "<Implementation>",
      "SELECT 1 P", "</Implementation>", "</View>", "<Right Name=\"Feed\">", "<Parameters>",
      "<Parameter Name=", "\"RightName\" ", "Type=\"Int32\"/>", "</Parameters>", "<Grant>",
      "<Expression>1</Expression>", "</Grant>", "</Right>", "</StoreSchema>"]).flatMap
    String.toList

def numberMember (name : String) : Member :=
  { name, valueType := .int32, itemTypeName := none, enumName := none, documentation := {}
    inBase := false }

def petProperty (m : Member) (length : Option Int) : Property :=
  { m with
    owner := "Pet", nullable := false, length, cascadeDelete := false, rowGuid := false
    default := none, constraints := [] }

def petColumn (name : String) : Column :=
  { numberMember name with owner := "Pets" }

def numberParameter (owner : Owner) (name : String) : Parameter :=
  { numberMember name with owner }

def repeatingSchema : Schema :=
  ⟨["BaseSchemaInternal", "PetIdentifier"].map fun name => ⟨name, [], {}, false⟩,
    [⟨"Pet", [petProperty (numberMember "ItemTypeName") none,
      petProperty { numberMember "Title" with valueType := .string } (some 5),
      petProperty (numberMember "MaxTitleLength") none], [], [], [], [], [], [], {}, false⟩],
    [⟨"Pets", ["ViewName", "P"].map petColumn, ["P", "P"].map (numberParameter (.view "Pets")),
      "SELECT 1 P", [], {}, false⟩],
    [⟨"Feed", [numberParameter (.right "Feed") "RightName"], ["1"], {}, false⟩], [], []⟩

theorem repeatingSchema_finished : repeatingSchema.Finished :=
  finished_of_schemaOf? repeatingFile "repeating.xml" false
    (schemaOf?_of_spelledOut (by repeat constructor) (by decide +kernel))

end Sample

/-- Where names are spelled like made-up ones, and where a view repeats a parameter, the
files declare names twice. -/
theorem repeating_sample : Sample.repeatingSchema.Finished ∧ ∃ storage derived,
    storageHelper Sample.repeatingSchema {} = .ok storage ∧
      derivedHelper Sample.repeatingSchema {} "Pets" "Pets.Schema" = .ok derived ∧
      (∀ file ∈ [storage, derived],
        (classesIn file).map (fun k => (k.name, k.constants.map Constant.name)) =
          [("Pet", ["ItemTypeName", "Id", "ItemTypeName", "Title", "MaxTitleLength",
            "MaxTitleLength"]), ("Pets", ["ViewName", "ViewName", "P", "P", "P"]),
            ("Feed", ["RightName", "RightName"])] ∧
        ¬ ∀ k ∈ classesIn file, (k.constants.map Constant.name).Nodup) ∧
      (¬ ∀ b ∈ componentsHelper Sample.repeatingSchema {},
        (b.types.map TypeDeclaration.name).Nodup) ∧
      ¬ ∀ b ∈ derived, (b.types.map TypeDeclaration.name).Nodup := by
  obtain ⟨storage, derived, made, madeDerived⟩ :=
    exists_helpers Sample.repeatingSchema_finished {} "Pets" "Pets.Schema"
  have ownTags : EnumsDeclared (componentsHelper Sample.repeatingSchema {} ++ [] ++ derived)
      Sample.repeatingSchema (Setting.ofDerived Sample.repeatingSchema {} "Pets").enums :=
    enumsDeclared_derived rfl madeDerived
  have tags := enumsDeclared_base Sample.repeatingSchema {} []
  have storageNames := names_of_writes (stores_storageHelper tags made).written
  have derivedNames := names_of_writes (writes_derivedHelper ownTags madeDerived)
  have repeated {ks : List ConstantClass}
      (listed : ks.map (fun k => (k.name, k.constants.map Constant.name)) =
        classNames Sample.repeatingSchema) :
      ¬ ∀ k ∈ ks, (k.constants.map Constant.name).Nodup := by
    intro distinct
    have pets : ("Pets", ["ViewName", "ViewName", "P", "P", "P"]) ∈
        ks.map fun k => (k.name, k.constants.map Constant.name) := by
      rw [listed]
      decide
    obtain ⟨k, inside, named⟩ := List.mem_map.mp pets
    exact absurd ((Prod.mk.inj named).2 ▸ distinct k inside) (by decide)
  refine ⟨Sample.repeatingSchema_finished, storage, derived, made, madeDerived, ?_, ?_, ?_⟩
  · refine List.forall_mem_cons.mpr ⟨⟨?_, repeated storageNames⟩, List.forall_mem_singleton.mpr
      ⟨?_, repeated derivedNames⟩⟩
    · exact storageNames.trans (by decide)
    · exact derivedNames.trans (by decide)
  · decide
  · obtain ⟨types, -, rfl⟩ := map_eq_ok.mp madeDerived
    intro distinct
    exact absurd (distinct _ (List.mem_cons_of_mem _ List.mem_cons_self)) (by decide)

end LearningStore.Helper
