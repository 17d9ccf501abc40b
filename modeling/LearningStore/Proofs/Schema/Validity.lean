import LearningStore.Proofs.Schema.Registry
import LearningStore.Proofs.Text.Gluing
import LearningStore.Schema.Basic

/-!
# Finished schemas are valid

Drafts that are sound leave one thing open: whether the references of their members lead
somewhere.  Drafts are finished only if all of them do, so what generators get is a
schema that holds no half-valid member.
-/

namespace LearningStore.Schema

open LearningStore.Text
open LearningStore.Value
open LearningStore.Xml

/-- A property, a column or a parameter whose references are there when its value type
asks for them, and lead to an element of the schema. -/
structure Member.Valid (s : Schema) (m : Member) : Prop where
  name : IsIdentifier m.name
  itemType_present : m.itemTypeName.isSome ↔ m.valueType = .itemIdentifier
  itemType_exists : ∀ name, m.itemTypeName = some name → ∃ i ∈ s.itemTypes, i.name = name
  enum_present : m.enumName.isSome ↔ m.valueType = .enumeration
  enum_exists : ∀ name, m.enumName = some name → ∃ e ∈ s.enums, e.name = name

/-- A property that fits its value type.  A literal that stands for an enum value is the
value of a member of the enum that the property refers to. -/
structure Property.Valid (s : Schema) (p : Property) : Prop where
  member : p.toMember.Valid s
  length : ∀ n, p.length = some n →
    (p.valueType = .string ∧ 1 ≤ n ∧ n ≤ maxStringLength) ∨
      (p.valueType = .byteArray ∧ 1 ≤ n ∧ n ≤ maxByteArrayLength)
  rowGuid : p.rowGuid = true → p.valueType = .guid
  cascadeDelete : p.cascadeDelete = true → p.valueType = .itemIdentifier
  null : p.default = some .null → p.nullable = true
  literal : ∀ l, p.default = some (.literal l) →
    l.valueType = p.valueType ∧ p.valueType ≠ .itemIdentifier
  enum_value : ∀ n, p.default = some (.literal (.enumeration n)) →
    ∃ e, s.referencedEnum p.toMember = .ok e ∧ ∃ v ∈ e.values, v.value = n

/-- A schema in which every name is an identifier and every member is valid. -/
structure Valid (s : Schema) : Prop where
  enums : ∀ e ∈ s.enums, IsIdentifier e.name
  enum_values : ∀ e ∈ s.enums, ∀ v ∈ e.values, IsIdentifier v.name
  itemTypes : ∀ i ∈ s.itemTypes, IsIdentifier i.name
  properties : ∀ i ∈ s.itemTypes, ∀ p ∈ i.properties, p.Valid s
  views : ∀ v ∈ s.views, IsIdentifier v.name
  columns : ∀ v ∈ s.views, ∀ c ∈ v.columns, c.toMember.Valid s
  view_parameters : ∀ v ∈ s.views, ∀ p ∈ v.parameters, p.toMember.Valid s
  rights : ∀ r ∈ s.rights, IsIdentifier r.name
  right_parameters : ∀ r ∈ s.rights, ∀ p ∈ r.parameters, p.toMember.Valid s

/-- The names of all elements, one kind after the other. -/
def elementNames (s : Schema) : List String :=
  s.enums.map EnumType.name ++ s.itemTypes.map ItemType.name ++ s.views.map View.name ++
    s.rights.map Right.name

/-- The elements have identifiers for names, no two of which differ in case alone. -/
structure Named (s : Schema) : Prop where
  identifiers : ∀ name ∈ s.elementNames, IsIdentifier name
  distinct : (s.elementNames.map lowered).Nodup

/-- The schemas that come of files: texts are applied to new drafts, accepted or not, and
the drafts are finished. -/
def Finished (s : Schema) : Prop :=
  ∃ texts, (({} : Drafts).applyTexts texts).finish = .ok s

/-! ## Lookups -/

theorem referencedItemType_eq_ok {s : Schema} {m : Member} {name : String} {i : ItemType}
    (named : m.itemTypeName = some name) (found : s.itemType? name = some i) :
    s.referencedItemType m = .ok i := by
  simp [referencedItemType, named, found]

theorem referencedEnum_eq_ok {s : Schema} {m : Member} {name : String} {e : EnumType}
    (named : m.enumName = some name) (found : s.enum? name = some e) :
    s.referencedEnum m = .ok e := by
  simp [referencedEnum, named, found]

/-- The item type that a valid member refers to is found. -/
theorem Member.Valid.itemType? {s : Schema} {m : Member} {name : String} (h : m.Valid s)
    (named : m.itemTypeName = some name) : ∃ i, s.itemType? name = some i := by
  obtain ⟨i, inside, same⟩ := h.itemType_exists name named
  rw [← Option.isSome_iff_exists, Schema.itemType?, List.find?_isSome]
  exact ⟨i, inside, beq_iff_eq.mpr same⟩

/-- The enum that a valid member refers to is found. -/
theorem Member.Valid.enum? {s : Schema} {m : Member} {name : String} (h : m.Valid s)
    (named : m.enumName = some name) : ∃ e, s.enum? name = some e := by
  obtain ⟨e, inside, same⟩ := h.enum_exists name named
  rw [← Option.isSome_iff_exists, Schema.enum?, List.find?_isSome]
  exact ⟨e, inside, beq_iff_eq.mpr same⟩

namespace Drafts

variable {d : Drafts}

theorem finish_eq_ok_iff {s : Schema} :
    d.finish = .ok s ↔ d.problems = [] ∧ d.toSchema = s := by
  have := Checked.toExcept_eq_ok_iff (x := ⟨d.toSchema, d.problems⟩) (a := s)
  exact this

theorem applyText_of_read {text fileName : String} {inBase : Bool} {file : SchemaFile}
    (accepted : SchemaFile.read text fileName inBase = .ok file) :
    d.applyText text fileName inBase = d.apply file := by
  simp [applyText, accepted]

/-- A text that is refused changes nothing. -/
theorem value_applyText_of_refused {text fileName : String} {inBase : Bool}
    (refused : (SchemaFile.read text fileName inBase).toOption = none) :
    (d.applyText text fileName inBase).value = d := by
  unfold applyText
  cases result : SchemaFile.read text fileName inBase with
  | error problems => rfl
  | ok file => rw [result] at refused; cases refused

/-! ## References -/

/-- The references of a member lead somewhere if none is reported. -/
theorem unresolved_eq_nil_iff {subject : Subject} {m : Member} :
    d.unresolved subject m = [] ↔
      (∀ name, m.itemTypeName = some name → ∃ i ∈ d.itemTypes, i.name = name) ∧
        ∀ name, m.enumName = some name → ∃ e ∈ d.enums, e.name = name := by
  simp [unresolved, List.filter_eq_nil_iff, Option.mem_toList]

/-- A sound member without unresolved references is valid. -/
theorem member_valid {subject : Subject} {m : Member} (sound : m.Sound)
    (resolved : d.unresolved subject m = []) : m.Valid d.toSchema :=
  have found := unresolved_eq_nil_iff.mp resolved
  ⟨sound.name, sound.itemTypeName, found.1, sound.enumName, found.2⟩

/-- An enum default is a value of its enum if it is not reported. -/
theorem mem_values_of_strayDefault {p : Property} {n : Int} {name : String} {e : EnumType}
    (none_stray : d.strayDefault p = [])
    (isValue : p.default = some (.literal (.enumeration n))) (named : p.enumName = some name)
    (found : (d.enums.find? fun e => e.name == name) = some e) :
    ∃ v ∈ e.values, v.value = n := by
  have present : (e.nameOf? n).isSome := by
    cases valued : e.nameOf? n with
    | none => simp [strayDefault, isValue, named, found, valued] at none_stray
    | some value => rfl
  simpa [EnumType.nameOf?] using present

/-- A sound property without a problem is valid. -/
theorem property_valid {owner : String} {p : Property} (sound : p.Sound owner)
    (complete : d.propertyProblems p = []) : p.Valid d.toSchema := by
  obtain ⟨resolved, none_stray⟩ := List.append_eq_nil_iff.mp complete
  have member := member_valid sound.member resolved
  refine ⟨member, ?_, sound.rowGuid, sound.cascadeDelete, sound.null, ?_, ?_⟩
  · intro n declared
    obtain ⟨limit, limited, low, high⟩ := sound.length n declared
    cases type : p.valueType <;> rw [type] at limited <;> cases limited
    · exact .inl ⟨rfl, low, high⟩
    · exact .inr ⟨rfl, low, high⟩
  · intro l isLiteral
    have type := sound.literal l isLiteral
    refine ⟨type, ?_⟩
    rw [← type]
    cases l <;> exact nofun
  · intro n isValue
    have type : p.valueType = .enumeration := (sound.literal _ isValue).symm
    obtain ⟨name, named⟩ := Option.isSome_iff_exists.mp (member.enum_present.mpr type)
    obtain ⟨e, found⟩ := member.enum? named
    refine ⟨e, referencedEnum_eq_ok named found, ?_⟩
    exact mem_values_of_strayDefault none_stray isValue named found

/-! ## Whole drafts -/

/-- Sound drafts without a problem make a valid schema. -/
theorem Sound.valid (h : d.Sound) (complete : d.problems = []) : d.toSchema.Valid := by
  simp only [problems, List.append_eq_nil_iff, List.flatMap_eq_nil_iff] at complete
  obtain ⟨⟨inItemTypes, inViews⟩, inRights⟩ := complete
  exact {
    enums := fun e member => (h.enums e member).name
    enum_values := fun e member => (h.enums e member).values
    itemTypes := fun i member => (h.itemTypes i member).name
    properties := fun i member p inside =>
      property_valid ((h.itemTypes i member).properties p inside) (inItemTypes i member p inside)
    views := fun v member => (h.views v member).name
    columns := fun v member c inside =>
      member_valid ((h.views v member).columns c inside).member ((inViews v member).1 c inside)
    view_parameters := fun v member p inside =>
      member_valid ((h.views v member).parameters p inside).member
        ((inViews v member).2 p inside)
    rights := fun r member => (h.rights r member).name
    right_parameters := fun r member p inside =>
      member_valid ((h.rights r member).parameters p inside).member
        (inRights r member p inside) }

/-- The names of sound drafts are those of the registry. -/
theorem Sound.named (h : d.Sound) : d.toSchema.Named := by
  refine ⟨?_, h.registered.distinct⟩
  intro name member
  simp only [Schema.elementNames, toSchema, List.mem_append, List.mem_map, or_assoc] at member
  rcases member with ⟨e, inside, rfl⟩ | ⟨i, inside, rfl⟩ | ⟨v, inside, rfl⟩ | ⟨r, inside, rfl⟩
  · exact (h.enums e inside).name
  · exact (h.itemTypes i inside).name
  · exact (h.views v inside).name
  · exact (h.rights r inside).name

end Drafts

/-! ## Finished schemas -/

/-- A finished schema is made of sound drafts without a problem. -/
theorem Finished.drafts {s : Schema} (h : s.Finished) :
    ∃ d : Drafts, d.Sound ∧ d.problems = [] ∧ d.toSchema = s := by
  obtain ⟨texts, finished⟩ := h
  exact ⟨_, Drafts.sound_applyTexts .empty texts, Drafts.finish_eq_ok_iff.mp finished⟩

theorem Finished.named {s : Schema} (h : s.Finished) : s.Named := by
  obtain ⟨d, sound, -, rfl⟩ := h.drafts
  exact sound.named

/-! ## A sample -/

theorem eq_ok_get {ε α : Type} {x : Except ε α} (found : x.toOption.isSome = true) :
    x = .ok (x.toOption.get found) := by
  cases x with
  | error e => cases found
  | ok a => rfl

theorem eq_ok_of_toOption {ε α : Type} {x : Except ε α} {a : α} (found : x.toOption = some a) :
    x = .ok a := by
  cases x with
  | error e => cases found
  | ok b => rw [Option.some.inj found]

theorem parse_ofList {characters : List Char} {root : Element}
    (scanned : Document.rootOf characters = .ok root) :
    Document.parse (String.ofList characters) =
      .ok ⟨characters, Position.table characters, root⟩ := by
  simp [Document.parse, scanned]

/-- The source that a run of characters makes once its root is found. -/
def Source.ofCharacters (characters : List Char) (fileName : String) (inBase : Bool)
    (found : (Document.rootOf characters).toOption.isSome = true) : Source :=
  ⟨fileName, inBase,
    ⟨characters, Position.table characters, (Document.rootOf characters).toOption.get found⟩⟩

/-- What is in a run of characters once its root is found. -/
def contentOf (characters : List Char) (fileName : String) (inBase : Bool)
    (found : (Document.rootOf characters).toOption.isSome = true) : SchemaFile :=
  (Source.ofCharacters characters fileName inBase found).file.value

/-- Characters that have a root and no problem are read. -/
theorem read_ofList (characters : List Char) (fileName : String) (inBase : Bool)
    (found : (Document.rootOf characters).toOption.isSome = true)
    (clean : (Source.ofCharacters characters fileName inBase found).file.problems.isEmpty =
      true) :
    SchemaFile.read (String.ofList characters) fileName inBase =
      .ok (contentOf characters fileName inBase found) := by
  exact SchemaFile.read_eq_ok_iff.mpr
    ⟨_, parse_ofList (eq_ok_get found), List.isEmpty_iff.mp clean, rfl⟩

/-- The schema that one file makes by itself, if nothing is wrong with it. -/
def schemaOf? (characters : List Char) (fileName : String) (inBase : Bool) : Option Schema :=
  match Document.rootOf characters with
  | .error _ => none
  | .ok root =>
      let file := Source.file ⟨fileName, inBase, ⟨characters, Position.table characters, root⟩⟩
      let drafts := (({} : Drafts).apply file.value).value
      if file.problems.isEmpty ∧ drafts.problems.isEmpty then some drafts.toSchema else none

/-- A file of literals has a root if their characters have one. -/
theorem hasRoot_of_spelledOut {literals : List String} {chars : List Char}
    (spelled : SpelledOut literals chars)
    (found : (Document.rootOf chars).toOption.isSome = true) :
    (Document.rootOf (literals.flatMap String.toList)).toOption.isSome = true := by
  rw [spelled.flatMap_toList]
  exact found

/-- A file of literals makes the source that their characters make. -/
theorem ofCharacters_of_spelledOut {literals : List String} {chars : List Char}
    {fileName : String} {inBase : Bool} (spelled : SpelledOut literals chars)
    (found : (Document.rootOf (literals.flatMap String.toList)).toOption.isSome = true) :
    Source.ofCharacters (literals.flatMap String.toList) fileName inBase found =
      Source.ofCharacters chars fileName inBase (spelled.flatMap_toList ▸ found) := by
  obtain rfl := spelled.flatMap_toList
  rfl

/-- A file of literals has the content that their characters have. -/
theorem contentOf_of_spelledOut {literals : List String} {chars : List Char}
    {fileName : String} {inBase : Bool} (spelled : SpelledOut literals chars)
    (found : (Document.rootOf (literals.flatMap String.toList)).toOption.isSome = true) :
    contentOf (literals.flatMap String.toList) fileName inBase found =
      contentOf chars fileName inBase (spelled.flatMap_toList ▸ found) := by
  obtain rfl := spelled.flatMap_toList
  rfl

/-- A file of literals makes the schema that their characters make. -/
theorem schemaOf?_of_spelledOut {literals : List String} {chars : List Char} {fileName : String}
    {inBase : Bool} {s : Schema} (spelled : SpelledOut literals chars)
    (made : schemaOf? chars fileName inBase = some s) :
    schemaOf? (literals.flatMap String.toList) fileName inBase = some s := by
  rw [spelled.flatMap_toList]
  exact made

/-- A schema that one file makes by itself is finished. -/
theorem finished_of_schemaOf? {s : Schema} (characters : List Char) (fileName : String)
    (inBase : Bool) (made : schemaOf? characters fileName inBase = some s) : s.Finished := by
  unfold schemaOf? at made
  split at made
  next => cases made
  next root scanned =>
    obtain ⟨⟨clean, complete⟩, same⟩ := Option.ite_none_right_eq_some.mp made
    have accepted : SchemaFile.read (String.ofList characters) fileName inBase =
        .ok (Source.file ⟨fileName, inBase,
          ⟨characters, Position.table characters, root⟩⟩).value :=
      SchemaFile.read_eq_ok_iff.mpr ⟨_, parse_ofList scanned, List.isEmpty_iff.mp clean, rfl⟩
    refine ⟨[⟨String.ofList characters, fileName, inBase⟩], ?_⟩
    rw [Drafts.applyTexts, Drafts.applyTexts, Drafts.applyText_of_read accepted,
      Drafts.finish_eq_ok_iff]
    exact ⟨List.isEmpty_iff.mp complete, Option.some.inj same⟩

namespace Sample

/-- The opening tag of a schema file. -/
def opening : List String :=
  ["<StoreSchema xmlns=\"urn:", "schemas-microsoft-com:", "learning-components:",
    "learning-store-schema\">"]

/-- A file with an enum and an item type. -/
def baseFile : List Char :=
  (opening ++
    ["<Enum Name=\"Mood\">", "<Values>", "<Value Name=\"Fine\" ", "Value=\"1\"/>", "</Values>",
      "</Enum>", "<ItemType Name=\"Pet\">", "<GrantAddRight>", "<Expression>@a</Expression>",
      "</GrantAddRight>", "<Properties>", "<Property Name=\"Mood\" ", "Type=\"Enum\" ",
      "EnumName=\"Mood\">", "<Default>1</Default>", "</Property>", "</Properties>",
      "</ItemType>", "</StoreSchema>"]).flatMap String.toList

/-- A file that extends the item type and declares a view and a right. -/
def derivedFile : List Char :=
  (opening ++
    ["<ExtendItemType ", "Name=\"Pet\">", "<Properties>", "<Property Name=\"Mother\" ",
      "Type=\"ItemIdentifier\" ", "ReferencedItemTypeName=", "\"Pet\" Nullable=\"true\"/>",
      "</Properties>", "</ExtendItemType>", "<View Name=\"Pets\">", "<Columns>",
      "<Column Name=\"Id\" ", "Type=\"ItemIdentifier\" ", "ReferencedItemTypeName=", "\"Pet\"/>",
      "</Columns>", "<Implementation>SELECT Id", " FROM Pet</Implementation>", "</View>",
      "<Right Name=\"Feed\">", "<Grant>", "<Expression>@a</Expression>",
      "<Expression>@b</Expression>", "</Grant>", "</Right>",
      "</StoreSchema>"]).flatMap String.toList

/-- A history with a text in the middle that is no document. -/
def texts : List SchemaText :=
  [⟨String.ofList baseFile, "base.xml", true⟩, ⟨"<", "broken.xml", false⟩,
    ⟨String.ofList derivedFile, "derived.xml", false⟩]

def mood : EnumType :=
  ⟨"Mood", [⟨"Fine", 1, none⟩], {}, true⟩

def moodProperty : Property :=
  { name := "Mood", valueType := .enumeration, itemTypeName := none, enumName := some "Mood"
    documentation := {}, inBase := true, owner := "Pet", nullable := false, length := none
    cascadeDelete := false, rowGuid := false, default := some (.literal (.enumeration 1))
    constraints := [] }

def motherProperty : Property :=
  { name := "Mother", valueType := .itemIdentifier, itemTypeName := some "Pet"
    enumName := none, documentation := {}, inBase := false, owner := "Pet", nullable := true
    length := none, cascadeDelete := false, rowGuid := false, default := none
    constraints := [] }

def idColumn : Column :=
  { name := "Id", valueType := .itemIdentifier, itemTypeName := some "Pet", enumName := none
    documentation := {}, inBase := false, owner := "Pets" }

/-- What the history makes. -/
def schema : Schema :=
  ⟨[mood], [⟨"Pet", [moodProperty, motherProperty], [], ["@a"], [], [], [], [], {}, true⟩],
    [⟨"Pets", [idColumn], [], "SELECT Id FROM Pet", [], {}, false⟩],
    [⟨"Feed", [], ["@a", "@b"], {}, false⟩], [], []⟩

/-- What the first file makes by itself. -/
def baseSchema : Schema :=
  ⟨[mood], [⟨"Pet", [moodProperty], [], ["@a"], [], [], [], [], {}, true⟩], [], [], [], []⟩

def emptySchema : Schema := ⟨[], [], [], [], [], []⟩

theorem baseFile_hasRoot : (Document.rootOf baseFile).toOption.isSome = true :=
  hasRoot_of_spelledOut (by repeat constructor) (by decide +kernel)

theorem derivedFile_hasRoot : (Document.rootOf derivedFile).toOption.isSome = true :=
  hasRoot_of_spelledOut (by repeat constructor) (by decide +kernel)

/-- What is read from the first file. -/
def baseContent : SchemaFile :=
  (Source.ofCharacters baseFile "base.xml" true baseFile_hasRoot).file.value

/-- What is read from the other file. -/
def derivedContent : SchemaFile :=
  (Source.ofCharacters derivedFile "derived.xml" false derivedFile_hasRoot).file.value

theorem read_baseFile :
    SchemaFile.read (String.ofList baseFile) "base.xml" true = .ok baseContent := by
  have spelled : Source.ofCharacters baseFile "base.xml" true baseFile_hasRoot = _ :=
    ofCharacters_of_spelledOut (by repeat constructor) baseFile_hasRoot
  exact read_ofList baseFile "base.xml" true baseFile_hasRoot (by rw [spelled]; decide +kernel)

theorem read_derivedFile :
    SchemaFile.read (String.ofList derivedFile) "derived.xml" false = .ok derivedContent := by
  have spelled : Source.ofCharacters derivedFile "derived.xml" false derivedFile_hasRoot = _ :=
    ofCharacters_of_spelledOut (by repeat constructor) derivedFile_hasRoot
  exact read_ofList derivedFile "derived.xml" false derivedFile_hasRoot
    (by rw [spelled]; decide +kernel)

def baseText : SchemaText :=
  ⟨String.ofList baseFile, "base.xml", true⟩

def derivedText : SchemaText :=
  ⟨String.ofList derivedFile, "derived.xml", false⟩

theorem finish_contents :
    ((({} : Drafts).apply baseContent).value.apply derivedContent).value.finish = .ok schema := by
  have base : baseContent = _ :=
    contentOf_of_spelledOut (by repeat constructor) baseFile_hasRoot
  have derived : derivedContent = _ :=
    contentOf_of_spelledOut (by repeat constructor) derivedFile_hasRoot
  rw [base, derived, Drafts.finish_eq_ok_iff]
  decide +kernel

theorem finish_baseText : (({} : Drafts).applyTexts [baseText]).finish = .ok baseSchema := by
  have base : baseContent = _ :=
    contentOf_of_spelledOut (by repeat constructor) baseFile_hasRoot
  rw [baseText, Drafts.applyTexts, Drafts.applyTexts, Drafts.applyText_of_read read_baseFile,
    base, Drafts.finish_eq_ok_iff]
  decide +kernel

theorem schema_finished : schema.Finished := by
  refine ⟨texts, ?_⟩
  have broken : (SchemaFile.read "<" "broken.xml" false).toOption = none := by decide
  rw [texts, Drafts.applyTexts, Drafts.applyTexts, Drafts.applyTexts, Drafts.applyTexts,
    Drafts.applyText_of_read read_baseFile, Drafts.value_applyText_of_refused broken,
    Drafts.applyText_of_read read_derivedFile, finish_contents]

theorem baseSchema_finished : baseSchema.Finished :=
  ⟨[baseText], finish_baseText⟩

theorem emptySchema_finished : emptySchema.Finished :=
  ⟨[], rfl⟩

end Sample

/-! ## Validity -/

/-- Whatever texts are applied, and whichever of them are refused, a schema that is finished
is valid. -/
theorem valid_of_finished {s : Schema} (h : s.Finished) : s.Valid := by
  obtain ⟨d, sound, complete, rfl⟩ := h.drafts
  exact sound.valid complete

theorem valid_sample : Sample.schema.Finished ∧ Sample.schema.Valid :=
  ⟨Sample.schema_finished, valid_of_finished Sample.schema_finished⟩

end LearningStore.Schema
