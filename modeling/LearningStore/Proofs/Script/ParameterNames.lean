import LearningStore.Proofs.Script.ColumnNames

/-!
# The names of parameters

Every function takes the key of the user, and some take the identifier of an item.  The other
names in a header are those of properties or parameters, and the header for updates has one more
for each property, behind a sign that no identifier holds.  What the declared names keep apart
stays apart in the header, except that a view may declare one parameter twice.
-/

namespace LearningStore.Script

open LearningStore.Schema
open LearningStore.Text
open LearningStore.Value

variable {s : Schema} {withDefaultViews : Bool} {name : String}

/-! ## Headers -/

/-- The names of the parameters in the header of a function, in order. -/
def SqlFunction.headerNames (f : SqlFunction) : List String :=
  "UserKey" :: f.parameters.map FunctionParameter.name

/-- What stands behind the name of a parameter: its type, with its default. -/
def FunctionParameter.declaredType (p : FunctionParameter) : String :=
  p.type ++ String.join (p.default.toList.map fun d => "=" ++ d.sqlConstant)

def declaration (name type : String) : String :=
  "@" ++ name ++ " " ++ type

/-- The header of a function that declares names, each with a type. -/
def headerText (name : String) (declared : List (String × String)) : String :=
  "CREATE FUNCTION " ++ bracketed name ++
    "(" ++ ",".intercalate (declared.map fun d => declaration d.1 d.2) ++ ")"

theorem FunctionParameter.text_eq (p : FunctionParameter) :
    p.text = "," ++ declaration p.name p.declaredType := by
  have sign : ",@" = "," ++ "@" := by decide
  simp only [text, declaration, declaredType, sign, String.append_assoc]

theorem intercalate_declarations (first : String) (ps : List FunctionParameter) :
    ",".intercalate (first :: ps.map fun p => declaration p.name p.declaredType) =
      first ++ String.join (ps.map FunctionParameter.text) := by
  induction ps generalizing first with
  | nil => exact String.intercalate_singleton.trans (String.append_empty).symm
  | cons p rest ih =>
      rw [List.map_cons, String.intercalate_cons_cons, ih, List.map_cons, String.join_cons,
        p.text_eq]
      simp only [String.append_assoc]

/-- The names in a header are those that its text declares, in order. -/
theorem SqlFunction.exists_declared (f : SqlFunction) :
    ∃ declared : List (String × String), declared.map Prod.fst = f.headerNames ∧
      f.header = headerText f.name declared := by
  refine ⟨("UserKey", "nvarchar(250)") :: f.parameters.map fun p => (p.name, p.declaredType),
    ?_, ?_⟩
  · rw [List.map_cons, List.map_map]
    rfl
  · have user : "(@UserKey nvarchar(250)" = "(" ++ declaration "UserKey" "nvarchar(250)" := by
      decide
    have others := intercalate_declarations (declaration "UserKey" "nvarchar(250)") f.parameters
    unfold header headerText
    rw [List.map_cons, List.map_map, user]
    refine Eq.trans ?_ (congrArg (fun t => _ ++ "(" ++ t ++ ")") others.symm)
    simp only [String.append_assoc]

/-- The names that follow the key of the user: some that no schema declares, and those of
properties or parameters.  A header for changes has a second name for each of the latter. -/
structure Header where
  fixed : List String
  declared : List String
  changes : Bool

namespace Header

/-- The names that are made of declared ones. -/
def generated (h : Header) : List String :=
  if h.changes then h.declared.map fun n => n ++ "$Changed" else []

/-- The names that are not made of others. -/
def given (h : Header) : List String :=
  "UserKey" :: h.fixed ++ h.declared

/-- The declared names are told apart from each other and from those that no schema declares. -/
structure Separate (h : Header) : Prop where
  declared : Apart h.declared
  fixed : ∀ n ∈ "UserKey" :: h.fixed, ∀ m ∈ h.declared, lowered n ≠ lowered m

/-- The names after the key of the user, in order. -/
def parameters (h : Header) : List String :=
  h.fixed ++ if h.changes then h.declared.flatMap fun n => [n ++ "$Changed", n] else h.declared

def names (h : Header) : List String :=
  "UserKey" :: h.parameters

theorem parameters_perm (h : Header) :
    h.parameters.Perm (h.generated ++ (h.fixed ++ h.declared)) := by
  have pairs : (if h.changes then h.declared.flatMap fun n => [n ++ "$Changed", n]
      else h.declared).Perm (h.generated ++ h.declared) := by
    unfold generated
    split
    next =>
      rw [List.map_eq_flatMap]
      have split := List.flatMap_append_perm h.declared (fun n => [n ++ "$Changed"]) fun n => [n]
      rw [List.flatMap_singleton'] at split
      exact split.symm
    next => exact .refl _
  refine (pairs.append_left h.fixed).trans ?_
  rw [← List.append_assoc, ← List.append_assoc]
  exact List.perm_append_comm.append_right h.declared

theorem names_perm (h : Header) : h.names.Perm (h.generated ++ h.given) :=
  (h.parameters_perm.cons "UserKey").trans List.perm_middle.symm

end Header

/-! ## Generated names -/

/-- A way to compare texts sign by sign that tells the sign behind names from all others. -/
structure TellsDollar (key : String → String) : Prop where
  append : ∀ a b, key (a ++ b) = key a ++ key b
  dollar : ∀ a, '$' ∈ (key a).toList ↔ '$' ∈ a.toList

theorem tellsDollar_id : TellsDollar id :=
  ⟨fun _ _ => rfl, fun _ => Iff.rfl⟩

theorem tellsDollar_lowered : TellsDollar lowered :=
  ⟨lowered_append, fun _ => dollar_mem_lowered_iff⟩

namespace Header

variable {h : Header}

theorem dollar_mem_of_generated {g : String} (inside : g ∈ h.generated) : '$' ∈ g.toList := by
  unfold generated at inside
  split at inside
  next =>
    obtain ⟨n, -, rfl⟩ := List.mem_map.mp inside
    simp
  next => cases inside

/-- Generated names are told apart if the names that they are made of are. -/
theorem nodup_generated {key : String → String} (tells : TellsDollar key)
    (distinct : (h.declared.map key).Nodup) : (h.generated.map key).Nodup := by
  unfold generated
  split
  next =>
    have endings : (h.declared.map fun n => n ++ "$Changed").map key =
        (h.declared.map key).map fun n => n ++ key "$Changed" := by
      rw [List.map_map, List.map_map]
      exact List.map_congr_left fun n _ => tells.append n "$Changed"
    rw [endings]
    exact distinct.map fun _ _ => (String.append_left_inj _).mp
  next => exact .nil

/-- Generated names are told apart from all names without the sign. -/
theorem nodup_generated_append {key : String → String} (tells : TellsDollar key)
    {names : List String} (declared : h.declared.Sublist names)
    (plain : ∀ n ∈ names, '$' ∉ n.toList) (distinct : (names.map key).Nodup) :
    ((h.generated ++ names).map key).Nodup := by
  rw [List.map_append, List.nodup_append]
  refine ⟨nodup_generated tells (distinct.sublist (declared.map key)), distinct, ?_⟩
  rintro _ ofGenerated _ ofName rfl
  obtain ⟨g, inside, rfl⟩ := List.mem_map.mp ofGenerated
  obtain ⟨n, known, same⟩ := List.mem_map.mp ofName
  refine plain n known ((tells.dollar n).mp ?_)
  rw [same]
  exact (tells.dollar g).mpr (dollar_mem_of_generated inside)

variable (plain : ∀ n ∈ h.given, '$' ∉ n.toList)

include plain

theorem nodup_parameters (distinct : (h.fixed ++ h.declared).Nodup) : h.parameters.Nodup := by
  rw [h.parameters_perm.nodup_iff]
  have told := nodup_generated_append tellsDollar_id (List.sublist_append_right h.fixed h.declared)
    (fun n inside => plain n (List.mem_cons_of_mem _ inside)) (by rwa [List.map_id])
  rwa [List.map_id] at told

theorem apart_names (fixed : Apart ("UserKey" :: h.fixed)) (separate : h.Separate) :
    Apart h.names := by
  have given : Apart h.given := apart_append.mpr ⟨fixed, separate.declared, separate.fixed⟩
  rw [Apart, (h.names_perm.map lowered).nodup_iff]
  exact nodup_generated_append tellsDollar_lowered (List.sublist_append_right _ _) plain given

end Header

/-! ## The headers of a schema -/

def parameterNames (parameters : List Parameter) : List String :=
  parameters.map fun p => p.name

/-- The header of the function that guards a right on items. -/
def itemRightHeader (i : ItemType) : ItemRight → Header
  | .query => ⟨[], [], false⟩
  | .add => ⟨[], propertyNames i, false⟩
  | .update => ⟨["Id"], propertyNames i, true⟩
  | .delete => ⟨["Id"], [], false⟩

/-- The headers of the functions for a schema, by the names of the functions. -/
inductive HasHeader (s : Schema) (withDefaultViews : Bool) : String → Header → Prop
  | defaultView {i : ItemType} (created : withDefaultViews = true) (known : i ∈ s.itemTypes) :
      HasHeader s withDefaultViews i.defaultViewFunction ⟨[], [], false⟩
  | itemRight {i : ItemType} {right : ItemRight} {name : String} (known : i ∈ s.itemTypes)
      (guarded : i.securityFunction? right = some name) :
      HasHeader s withDefaultViews name (itemRightHeader i right)
  | view {v : View} (known : v ∈ s.views) :
      HasHeader s withDefaultViews v.name ⟨[], parameterNames v.parameters, false⟩
  | viewSecurity {v : View} {name : String} (known : v ∈ s.views)
      (guarded : v.securityFunction? = some name) :
      HasHeader s withDefaultViews name ⟨[], parameterNames v.parameters, false⟩
  | right {r : Right} {name : String} (known : r ∈ s.rights)
      (guarded : r.securityFunction? = some name) :
      HasHeader s withDefaultViews name ⟨[], parameterNames r.parameters, false⟩

theorem names_itemRightParameters (i : ItemType) (right : ItemRight) :
    (itemRightParameters i right).map FunctionParameter.name =
      (itemRightHeader i right).parameters := by
  cases right with
  | query | delete => rfl
  | add =>
      rw [itemRightParameters, List.map_map]
      rfl
  | update =>
      rw [itemRightParameters, List.map_cons, List.map_flatMap]
      simp only [itemRightHeader, Header.parameters, propertyNames, List.flatMap_map]
      rfl

theorem names_nullableParameters (parameters : List Parameter) :
    (nullableParameters parameters).map FunctionParameter.name = parameterNames parameters := by
  rw [nullableParameters, List.map_map]
  rfl

/-- Each function of a schema has a header that goes with its name. -/
theorem hasHeader_of_mem {d : Described} (inside : d ∈ functions s withDefaultViews) :
    ∃ h, HasHeader s withDefaultViews d.function.name h := by
  obtain ⟨x, slot, member⟩ := List.mem_flatMap.mp (functions_perm.mem_iff.mp inside)
  rcases mem_slots_iff.mp slot with ⟨i, known, rfl | ⟨right, rfl⟩⟩ | ⟨v, known, rfl | rfl⟩ |
    ⟨r, known, rfl⟩
  · cases withDefaultViews with
    | false => cases member
    | true =>
        cases List.mem_singleton.mp member
        exact ⟨_, .defaultView rfl known⟩
  · obtain ⟨name, guarded, rfl⟩ := List.mem_map.mp member
    exact ⟨_, .itemRight known (Option.mem_toList.mp guarded)⟩
  · cases List.mem_singleton.mp member
    exact ⟨_, .view known⟩
  · obtain ⟨name, guarded, rfl⟩ := List.mem_map.mp member
    exact ⟨_, .viewSecurity known (Option.mem_toList.mp guarded)⟩
  · obtain ⟨name, guarded, rfl⟩ := List.mem_map.mp member
    exact ⟨_, .right known (Option.mem_toList.mp guarded)⟩

namespace HasHeader

variable {h : Header}

/-- Each header that goes with a name is that of a function of the schema. -/
theorem exists_function (has : HasHeader s withDefaultViews name h) :
    ∃ d ∈ functions s withDefaultViews,
      d.function.name = name ∧ d.function.headerNames = h.names := by
  have found {x : Slot} (slot : x ∈ slots s withDefaultViews) {d : Described}
      (member : d ∈ x.functions)
      (names : d.function.parameters.map FunctionParameter.name = h.parameters) :
      ∃ e ∈ functions s withDefaultViews, e.function.name = d.function.name ∧
        e.function.headerNames = h.names :=
    ⟨d, (mem_functions_of_slot slot member).1, rfl, congrArg _ names⟩
  cases has with
  | defaultView created known =>
      subst created
      exact found (mem_slots_iff.mpr (.inl ⟨_, known, .inl rfl⟩)) (List.mem_singleton.mpr rfl) rfl
  | itemRight known guarded =>
      exact found (mem_slots_iff.mpr (.inl ⟨_, known, .inr ⟨_, rfl⟩⟩))
        (List.mem_map_of_mem (Option.mem_toList.mpr guarded)) (names_itemRightParameters _ _)
  | view known =>
      exact found (mem_slots_iff.mpr (.inr (.inl ⟨_, known, .inl rfl⟩)))
        (List.mem_singleton.mpr rfl) (names_nullableParameters _)
  | viewSecurity known guarded =>
      exact found (mem_slots_iff.mpr (.inr (.inl ⟨_, known, .inr rfl⟩)))
        (List.mem_map_of_mem (Option.mem_toList.mpr guarded)) (names_nullableParameters _)
  | right known guarded =>
      exact found (mem_slots_iff.mpr (.inr (.inr ⟨_, known, rfl⟩)))
        (List.mem_map_of_mem (Option.mem_toList.mpr guarded)) (names_nullableParameters _)

/-- A function has no other names in its header than those that go with its name. -/
theorem headerNames_eq (named : s.Named) {d : Described}
    (inside : d ∈ functions s withDefaultViews)
    (has : HasHeader s withDefaultViews d.function.name h) :
    d.function.headerNames = h.names := by
  obtain ⟨e, created, sameName, names⟩ := has.exists_function
  have same : e = d :=
    List.inj_on_of_nodup_map (functions_distinct named withDefaultViews) created inside
      (congrArg lowered sameName)
  rw [← same, names]

theorem fixed_eq (has : HasHeader s withDefaultViews name h) :
    h.fixed = [] ∨ h.fixed = ["Id"] := by
  cases has with
  | @itemRight i right _ known guarded =>
      cases right with
      | query | add => exact .inl rfl
      | update | delete => exact .inr rfl
  | _ => exact .inl rfl

theorem apart_fixed (has : HasHeader s withDefaultViews name h) :
    Apart ("UserKey" :: h.fixed) := by
  rcases has.fixed_eq with none_fixed | fixed
  · rw [none_fixed]
    exact List.nodup_singleton _
  · rw [fixed]
    decide

theorem declared_identifiers (valid : s.Valid) (has : HasHeader s withDefaultViews name h) :
    ∀ n ∈ h.declared, IsIdentifier n := by
  have properties {i : ItemType} (known : i ∈ s.itemTypes) :
      ∀ n ∈ propertyNames i, IsIdentifier n := fun _ inside => by
    obtain ⟨p, member, rfl⟩ := List.mem_map.mp inside
    exact (valid.properties i known p member).member.name
  have parameters {ps : List Parameter} (each : ∀ p ∈ ps, p.toMember.Valid s) :
      ∀ n ∈ parameterNames ps, IsIdentifier n := fun _ inside => by
    obtain ⟨p, member, rfl⟩ := List.mem_map.mp inside
    exact (each p member).name
  cases has with
  | defaultView => exact fun _ => nofun
  | @itemRight i right _ known guarded =>
      cases right with
      | query | delete => exact fun _ => nofun
      | add | update => exact properties known
  | view known | viewSecurity known => exact parameters (valid.view_parameters _ known)
  | right known => exact parameters (valid.right_parameters _ known)

theorem plain (valid : s.Valid) (has : HasHeader s withDefaultViews name h) :
    ∀ n ∈ h.given, '$' ∉ n.toList := by
  refine List.forall_mem_append.mpr ⟨List.forall_mem_cons.mpr ⟨by decide, ?_⟩, ?_⟩
  · rcases has.fixed_eq with none_fixed | fixed
    · rw [none_fixed]
      exact fun _ => nofun
    · rw [fixed]
      decide
  · intro n inside
    exact (has.declared_identifiers valid n inside).dollar_notMem

/-- Only a view may declare a parameter twice. -/
theorem nodup (itemTypes : ∀ i ∈ s.itemTypes, i.Sound) (rights : ∀ r ∈ s.rights, r.Sound)
    (has : HasHeader s withDefaultViews name h) (noView : name ∉ s.views.flatMap viewFunctions) :
    (h.fixed ++ h.declared).Nodup := by
  cases has with
  | defaultView => exact .nil
  | @itemRight i right _ known guarded =>
      have sound := itemTypes i known
      cases right with
      | query => exact .nil
      | delete => exact List.nodup_singleton "Id"
      | add => exact sound.distinct
      | update => exact nodup_itemTypeColumns sound
  | @view v known =>
      exact absurd (List.mem_flatMap.mpr ⟨v, known, List.mem_cons_self⟩) noView
  | @viewSecurity v _ known guarded =>
      refine absurd (List.mem_flatMap.mpr ⟨v, known, ?_⟩) noView
      exact List.mem_cons_of_mem _ (Option.mem_toList.mpr guarded)
  | right known => exact (rights _ known).distinct

end HasHeader

/-! ## The headers of a script -/

/-- What holds of the headers in a script for a schema.  The functions are those that have a
header, and the names that its text declares follow from it.  Behind the key of the user a name stands once as it is
written, except for a view.  Without regard to case all names are told apart if the declared ones
are, in particular if there are none. -/
structure HeadersFit (s : Schema) (withDefaultViews : Bool) (script : List Statement) :
    Prop where
  created_iff : ∀ name, (∃ f ∈ created script, f.name = name) ↔
    ∃ h, HasHeader s withDefaultViews name h
  names : ∀ f ∈ created script, ∀ h, HasHeader s withDefaultViews f.name h →
    f.headerNames = h.names
  written : ∀ f ∈ created script, f.name ∉ s.views.flatMap viewFunctions →
    (f.parameters.map FunctionParameter.name).Nodup
  apart : ∀ f ∈ created script, ∀ h, HasHeader s withDefaultViews f.name h → h.Separate →
    Apart f.headerNames
  undeclared : ∀ f ∈ created script, ∀ h, HasHeader s withDefaultViews f.name h →
    h.declared = [] → Apart f.headerNames
  text : ∀ f ∈ created script, ∀ h, HasHeader s withDefaultViews f.name h →
    ∃ declared : List (String × String), declared.map Prod.fst = h.names ∧
      f.header = headerText f.name declared

theorem created_iff_hasHeader {script : List Statement}
    (creates : Creates (functions s withDefaultViews) script) :
    (∃ f ∈ created script, f.name = name) ↔ ∃ h, HasHeader s withDefaultViews name h := by
  rw [creates.created_eq]
  constructor
  · rintro ⟨f, inside, rfl⟩
    obtain ⟨d, member, rfl⟩ := List.mem_map.mp inside
    exact hasHeader_of_mem member
  · rintro ⟨h, has⟩
    obtain ⟨d, member, named, -⟩ := has.exists_function
    exact ⟨d.function, List.mem_map_of_mem member, named⟩

theorem headersFit_of_creates {d : Drafts} (sound : d.Sound) (complete : d.problems = [])
    {script : List Statement} (creates : Creates (functions d.toSchema withDefaultViews) script) :
    HeadersFit d.toSchema withDefaultViews script := by
  have valid := sound.valid complete
  have names : ∀ f ∈ created script, ∀ h, HasHeader d.toSchema withDefaultViews f.name h →
      f.headerNames = h.names := by
    rw [creates.created_eq, List.forall_mem_map]
    exact fun f inside h has => has.headerNames_eq sound.named inside
  have apart : ∀ f ∈ created script, ∀ h, HasHeader d.toSchema withDefaultViews f.name h →
      h.Separate → Apart f.headerNames := by
    intro f inside h has separate
    rw [names f inside h has]
    exact h.apart_names (has.plain valid) has.apart_fixed separate
  refine ⟨fun name => created_iff_hasHeader creates, names, ?_, apart, ?_, ?_⟩
  · intro f inside noView
    obtain ⟨h, has⟩ := (created_iff_hasHeader creates).mp ⟨f, inside, rfl⟩
    rw [(List.cons.inj (names f inside h has)).2]
    exact h.nodup_parameters (has.plain valid) (has.nodup sound.itemTypes sound.rights noView)
  · intro f inside h has none_declared
    refine apart f inside h has ⟨?_, ?_⟩
    · rw [none_declared]
      exact .nil
    · rw [none_declared]
      exact fun _ _ _ => nofun
  · intro f inside h has
    rw [← names f inside h has]
    exact f.exists_declared

/-- Both scripts for a finished schema have headers that fit it. -/
theorem headersFit_of_finished (finished : s.Finished) : ∃ first next, init s = .ok first ∧
    upgrade s = .ok next ∧ HeadersFit s true first ∧ HeadersFit s false next := by
  obtain ⟨d, sound, complete, rfl⟩ := finished.drafts
  have valid := sound.valid complete
  obtain ⟨first, made⟩ := succeeds_init valid
  obtain ⟨next, remade⟩ := succeeds_upgrade valid
  exact ⟨first, next, made, remade, headersFit_of_creates sound complete (creates_init made),
    headersFit_of_creates sound complete (creates_upgrade remade)⟩

theorem headersFit_sample : Sample.schema.Finished ∧ ∃ first next,
    init Sample.schema = .ok first ∧ upgrade Sample.schema = .ok next ∧
      HeadersFit Sample.schema true first ∧ HeadersFit Sample.schema false next :=
  ⟨Sample.schema_finished, headersFit_of_finished Sample.schema_finished⟩

namespace Sample

/-- A file with a view that declares a parameter twice, a right with parameters that differ in
case, and an item type with properties that differ in case from what each header has. -/
def repeatedFile : List Char :=
  (Schema.Sample.opening ++
    ["<ItemType Name=", "\"Pet\">", "<GrantUpdateRight>", "<Expression>1</Expression>",
      "</GrantUpdateRight>", "<Properties>", "<Property Name=", "\"userKey\" ",
      "Type=\"Int32\"/>", "<Property Name=\"ID\" ", "Type=\"Int32\"/>", "</Properties>",
      "</ItemType>", "<View Name=\"Pets\">", "<Columns>", "<Column Name=\"C\" ",
      "Type=\"Int32\"/>", "</Columns>", "<Parameters>", "<Parameter Name=\"P\" ",
      "Type=\"Int32\"/>", "<Parameter Name=\"P\" ", "Type=\"Int32\"/>", "</Parameters>",
      "<Implementation>", "SELECT 1 C", "</Implementation>", "</View>",
      "<Right Name=\"Feed\">", "<Parameters>", "<Parameter Name=\"Q\" ",
      "Type=\"Int32\"/>", "<Parameter Name=\"q\" ", "Type=\"Int32\"/>", "</Parameters>",
      "<Grant>", "<Expression>1</Expression>", "</Grant>", "</Right>",
      "</StoreSchema>"]).flatMap String.toList

def numberColumn (owner name : String) : Column :=
  { numberMember name with owner }

def numberParameter (owner : Owner) (name : String) : Parameter :=
  { numberMember name with owner }

def repeatedSchema : Schema :=
  ⟨[], [⟨"Pet", ["userKey", "ID"].map numberProperty, [], [], ["1"], [], [], [], {}, false⟩],
    [⟨"Pets", [numberColumn "Pets" "C"], ["P", "P"].map (numberParameter (.view "Pets")),
      "SELECT 1 C", [], {}, false⟩],
    [⟨"Feed", ["Q", "q"].map (numberParameter (.right "Feed")), ["1"], {}, false⟩], [], []⟩

theorem repeatedSchema_finished : repeatedSchema.Finished :=
  finished_of_schemaOf? repeatedFile "repeated.xml" false
    (schemaOf?_of_spelledOut (by repeat constructor) (by decide +kernel))

end Sample

/-- Names that no header should repeat: those of a view as they are written, and others in a
different case. -/
theorem repeated_sample : Sample.repeatedSchema.Finished ∧ ∃ first next,
    init Sample.repeatedSchema = .ok first ∧ upgrade Sample.repeatedSchema = .ok next ∧
      (created next).map SqlFunction.headerNames =
        [["UserKey", "Id", "userKey$Changed", "userKey", "ID$Changed", "ID"],
          ["UserKey", "P", "P"], ["UserKey", "Q", "q"]] ∧
      (created first).map SqlFunction.headerNames =
        (created next).map SqlFunction.headerNames ++ [["UserKey"]] ∧
      (¬ ∀ f ∈ created first, Apart f.headerNames) ∧
        ¬ ∀ f ∈ created next, Apart f.headerNames := by
  obtain ⟨d, sound, complete, same⟩ := Sample.repeatedSchema_finished.drafts
  have valid : Sample.repeatedSchema.Valid := same ▸ sound.valid complete
  obtain ⟨first, made⟩ := succeeds_init valid
  obtain ⟨next, remade⟩ := succeeds_upgrade valid
  have headers : (created next).map SqlFunction.headerNames =
      [["UserKey", "Id", "userKey$Changed", "userKey", "ID$Changed", "ID"],
        ["UserKey", "P", "P"], ["UserKey", "Q", "q"]] := by
    rw [(creates_upgrade remade).created_eq]
    decide +kernel
  have more : (created first).map SqlFunction.headerNames =
      (created next).map SqlFunction.headerNames ++ [["UserKey"]] := by
    rw [(creates_upgrade remade).created_eq, (creates_init made).created_eq]
    decide +kernel
  have view : ["UserKey", "P", "P"] ∈ (created next).map SqlFunction.headerNames := by
    rw [headers]
    exact List.mem_cons_of_mem _ List.mem_cons_self
  have repeated : ¬ Apart ["UserKey", "P", "P"] := by decide
  refine ⟨Sample.repeatedSchema_finished, first, next, made, remade, headers, more, ?_, ?_⟩
  · intro apart
    exact repeated (List.forall_mem_map.mpr apart _ (more ▸ List.mem_append_left _ view))
  · intro apart
    exact repeated (List.forall_mem_map.mpr apart _ view)

end LearningStore.Script
