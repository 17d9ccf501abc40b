import LearningStore.Proofs.Script.ColumnNames
import LearningStore.Proofs.Value.Constant

/-!
# Defaults of parameters

A parameter of a view or of a right is null when it is left out.  A parameter of the function that
checks additions has the default of its property, in the form that stands in the column too.  A
column may have an expression there, and a parameter has to have a constant.  Literals are
constants, so the headers of a schema are what a server accepts exactly if no expression reaches
them: those of properties count whose item type has some expression that grants additions.
-/

namespace LearningStore.Script

open LearningStore.Schema
open LearningStore.Text
open LearningStore.Value

variable {s : Schema} {withDefaultViews : Bool}

/-- The texts behind the equals signs in the header of a function. -/
def SqlFunction.defaultTexts (f : SqlFunction) : List String :=
  f.parameters.filterMap fun p => p.default.map DefaultValue.sqlConstant

/-- The header of a function with this name has an expression as a default, because a property has
it and its item type grants additions. -/
def ReachesHeader (s : Schema) (name expression : String) : Prop :=
  ∃ i ∈ s.itemTypes, i.securityFunction? .add = some name ∧
    ∃ p ∈ i.properties, p.default = some (.function expression)

/-! ## The defaults in a header -/

theorem mem_defaultTexts_iff {f : SqlFunction} {text : String} :
    text ∈ f.defaultTexts ↔
      ∃ p ∈ f.parameters, ∃ default, p.default = some default ∧ default.sqlConstant = text := by
  simp only [SqlFunction.defaultTexts, List.mem_filterMap, Option.map_eq_some_iff]

/-- Every parameter has no default or the null value, except for the properties that a new item
sets. -/
theorem default_of_mem {d : Described} (inside : d ∈ functions s withDefaultViews)
    {p : FunctionParameter} (member : p ∈ d.function.parameters) {default : DefaultValue}
    (given : p.default = some default) : default = .null ∨
      ∃ i ∈ s.itemTypes, i.securityFunction? .add = some d.function.name ∧
        ∃ q ∈ i.properties, q.default = some default := by
  have nullable {parameters : List Parameter} (shown : p ∈ nullableParameters parameters) :
      default = .null := by
    obtain ⟨q, -, rfl⟩ := List.mem_map.mp shown
    cases given
    rfl
  obtain ⟨x, slot, found⟩ := List.mem_flatMap.mp (functions_perm.mem_iff.mp inside)
  rcases mem_slots_iff.mp slot with ⟨i, known, rfl | ⟨right, rfl⟩⟩ | ⟨v, known, rfl | rfl⟩ |
    ⟨r, known, rfl⟩
  · cases withDefaultViews with
    | false => cases found
    | true =>
        cases List.mem_singleton.mp found
        cases member
  · obtain ⟨name, guarded, rfl⟩ := List.mem_map.mp found
    cases right with
    | query => cases member
    | add =>
        obtain ⟨q, property, rfl⟩ := List.mem_map.mp member
        exact .inr ⟨i, known, Option.mem_toList.mp guarded, q, property, given⟩
    | update =>
        rcases List.mem_cons.mp member with rfl | changed
        · cases given
        · obtain ⟨q, -, pair⟩ := List.mem_flatMap.mp changed
          rcases List.mem_pair.mp pair with rfl | rfl <;> cases given
    | delete =>
        cases List.mem_singleton.mp member
        cases given
  · cases List.mem_singleton.mp found
    exact .inl (nullable member)
  · obtain ⟨name, -, rfl⟩ := List.mem_map.mp found
    exact .inl (nullable member)
  · obtain ⟨name, -, rfl⟩ := List.mem_map.mp found
    exact .inl (nullable member)

theorem isConstant_or_reaches {d : Described} (inside : d ∈ functions s withDefaultViews)
    {text : String} (shown : text ∈ d.function.defaultTexts) :
    isConstant text = true ∨ ReachesHeader s d.function.name text := by
  obtain ⟨p, member, default, given, rfl⟩ := mem_defaultTexts_iff.mp shown
  rcases default_of_mem inside member given with rfl | ⟨i, known, guarded, q, property, same⟩
  · exact .inl (isConstant_sqlConstant_iff.mpr fun _ => nofun)
  · cases default with
    | function expression => exact .inr ⟨i, known, guarded, q, property, same⟩
    | null | literal => exact .inl (isConstant_sqlConstant_iff.mpr fun _ => nofun)

/-- What reaches a header stands in it. -/
theorem ReachesHeader.exists_function (withDefaultViews : Bool) {name expression : String}
    (reaches : ReachesHeader s name expression) :
    ∃ d ∈ functions s withDefaultViews,
      d.function.name = name ∧ expression ∈ d.function.defaultTexts := by
  obtain ⟨i, known, guarded, p, property, given⟩ := reaches
  have slot : itemRightSlot i .add ∈ slots s withDefaultViews :=
    mem_slots_iff.mpr (.inl ⟨i, known, .inr ⟨.add, rfl⟩⟩)
  have member := List.mem_map_of_mem (f := fun name => (⟨itemRightPurpose i .add,
    ⟨name, itemRightParameters i .add, .granted (i.expressions .add)⟩⟩ : Described))
    (Option.mem_toList.mpr guarded)
  refine ⟨_, (mem_functions_of_slot slot member).1, rfl, ?_⟩
  exact mem_defaultTexts_iff.mpr ⟨_, List.mem_map_of_mem property, _, given, rfl⟩

/-! ## The defaults in a script -/

/-- What holds of the defaults in the headers of a script for a schema.  Each is a constant or an
expression of a property that reaches the header, and all such expressions stand there.  So all
are constants if and only if these expressions are. -/
structure DefaultsFit (s : Schema) (script : List Statement) : Prop where
  constant : ∀ f ∈ created script, ∀ text ∈ f.defaultTexts,
    isConstant text = true ∨ ReachesHeader s f.name text
  shown : ∀ name expression, ReachesHeader s name expression →
    ∃ f ∈ created script, f.name = name ∧ expression ∈ f.defaultTexts
  constants_iff : (∀ f ∈ created script, ∀ text ∈ f.defaultTexts, isConstant text = true) ↔
    ∀ i ∈ s.itemTypes, i.addExpressions ≠ [] → ∀ p ∈ i.properties, ∀ expression,
      p.default = some (.function expression) → isConstant expression = true

theorem defaultsFit_of_creates {script : List Statement}
    (creates : Creates (functions s withDefaultViews) script) : DefaultsFit s script := by
  have constant : ∀ f ∈ created script, ∀ text ∈ f.defaultTexts,
      isConstant text = true ∨ ReachesHeader s f.name text := by
    rw [creates.created_eq, List.forall_mem_map]
    exact fun d inside text => isConstant_or_reaches inside
  have shown : ∀ name expression, ReachesHeader s name expression →
      ∃ f ∈ created script, f.name = name ∧ expression ∈ f.defaultTexts := by
    intro name expression reaches
    obtain ⟨d, inside, same, member⟩ := reaches.exists_function withDefaultViews
    exact ⟨d.function, creates.created_eq ▸ List.mem_map_of_mem inside, same, member⟩
  refine ⟨constant, shown, fun each i known granted p property expression given => ?_,
    fun each f inside text member => ?_⟩
  · have guarded : i.securityFunction? .add = some (i.name ++ "$AddSecurity") :=
      if_neg (mt List.isEmpty_iff.mp granted)
    obtain ⟨f, inside, -, member⟩ := shown _ _ ⟨i, known, guarded, p, property, given⟩
    exact each f inside expression member
  · rcases constant f inside text member with yes | ⟨i, known, guarded, p, property, given⟩
    · exact yes
    · have granted : i.addExpressions ≠ [] := by
        rintro empty
        rw [ItemType.securityFunction?, ItemType.expressions, empty] at guarded
        cases guarded
      exact each i known granted p property text given

/-- Both scripts for a finished schema have constants as defaults in their headers, but for the
expressions that reach them. -/
theorem defaultsFit_of_finished (finished : s.Finished) : ∃ first next, init s = .ok first ∧
    upgrade s = .ok next ∧ DefaultsFit s first ∧ DefaultsFit s next := by
  obtain ⟨d, sound, complete, rfl⟩ := finished.drafts
  have valid := sound.valid complete
  obtain ⟨first, made⟩ := succeeds_init valid
  obtain ⟨next, remade⟩ := succeeds_upgrade valid
  exact ⟨first, next, made, remade, defaultsFit_of_creates (creates_init made),
    defaultsFit_of_creates (creates_upgrade remade)⟩

theorem defaultsFit_sample : Sample.schema.Finished ∧ ∃ first next,
    init Sample.schema = .ok first ∧ upgrade Sample.schema = .ok next ∧
      DefaultsFit Sample.schema first ∧ DefaultsFit Sample.schema next :=
  ⟨Sample.schema_finished, defaultsFit_of_finished Sample.schema_finished⟩

namespace Sample

/-- A file with an item type that has a call as the default of a property, and grants additions
in an extension. -/
def keyedFile : List Char :=
  (Schema.Sample.opening ++
    ["<ItemType Name=", "\"Pet\">", "<Properties>", "<Property Name=\"Key\" ",
      "Type=\"Guid\">", "<Default ", "IsFunction=\"true\">", "NEWID()", "</Default>",
      "</Property>", "</Properties>", "</ItemType>", "<ExtendItemType ", "Name=\"Pet\">",
      "<GrantAddRight>", "<Expression>1</Expression>", "</GrantAddRight>",
      "</ExtendItemType>", "</StoreSchema>"]).flatMap String.toList

def keyProperty : Property :=
  { numberProperty "Key" with valueType := .guid, default := some (.function "NEWID()") }

def keyedSchema : Schema :=
  ⟨[], [⟨"Pet", [keyProperty], [], ["1"], [], [], [], [], {}, false⟩], [], [], [], []⟩

theorem keyedSchema_finished : keyedSchema.Finished :=
  finished_of_schemaOf? keyedFile "keyed.xml" false
    (schemaOf?_of_spelledOut (by repeat constructor) (by decide +kernel))

end Sample

/-- A call reaches the header of a function in both scripts. -/
theorem expression_sample : Sample.keyedSchema.Finished ∧ ∃ first next,
    init Sample.keyedSchema = .ok first ∧ upgrade Sample.keyedSchema = .ok next ∧
      (created next).map SqlFunction.header = ["CREATE FUNCTION [Pet$AddSecurity]" ++
        "(@UserKey nvarchar(250),@Key uniqueidentifier=NEWID())"] ∧
      (∃ f ∈ created first, f ∈ created next ∧ f.name = "Pet$AddSecurity" ∧
        f.defaultTexts = ["NEWID()"]) ∧
      (¬ ∀ f ∈ created first, ∀ text ∈ f.defaultTexts, isConstant text = true) ∧
        ¬ ∀ f ∈ created next, ∀ text ∈ f.defaultTexts, isConstant text = true := by
  obtain ⟨d, sound, complete, same⟩ := Sample.keyedSchema_finished.drafts
  have valid : Sample.keyedSchema.Valid := same ▸ sound.valid complete
  obtain ⟨first, made⟩ := succeeds_init valid
  obtain ⟨next, remade⟩ := succeeds_upgrade valid
  have guard : ⟨"Pet$AddSecurity", [⟨"Key", "uniqueidentifier", some (.function "NEWID()")⟩],
      .granted ["1"]⟩ ∈ created next := by
    rw [(creates_upgrade remade).created_eq]
    decide +kernel
  have guardFirst : ⟨"Pet$AddSecurity", [⟨"Key", "uniqueidentifier",
      some (.function "NEWID()")⟩], .granted ["1"]⟩ ∈ created first := by
    rw [(creates_init made).created_eq]
    decide +kernel
  have call : ¬ isConstant "NEWID()" = true := by decide +kernel
  refine ⟨Sample.keyedSchema_finished, first, next, made, remade, ?_,
    ⟨_, guardFirst, guard, rfl, rfl⟩, ?_, ?_⟩
  · rw [(creates_upgrade remade).created_eq]
    decide +kernel
  · exact fun each => call (each _ guardFirst _ List.mem_cons_self)
  · exact fun each => call (each _ guard _ List.mem_cons_self)

end LearningStore.Script
