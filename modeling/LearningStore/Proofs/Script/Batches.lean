import LearningStore.Proofs.Compile.Generation
import LearningStore.Proofs.Script.Prerequisites
import LearningStore.Proofs.Script.SteadyStatements
import LearningStore.Proofs.Script.Tables

/-!
# Batches of scripts

Every function of a script is created by the first statement of a batch, with nothing but a comment
and blank lines before it.  In the script that creates a store the tables, the rows of enums and the
foreign keys all come in the first batch.  This holds whatever the texts of a schema are, as long as
they have no line that ends a batch and do not mention functions.
-/

namespace LearningStore.Schema

open LearningStore.Value

/-- The texts of a property that scripts have in them as they are. -/
def Property.sqlTexts (p : Property) : List String :=
  p.constraints ++ (p.default.bind DefaultValue.freeText?).toList

def ItemType.sqlTexts (i : ItemType) : List String :=
  ItemRight.all.flatMap i.expressions ++ i.properties.flatMap Property.sqlTexts ++ i.indexes ++
    i.sqlAfter

def View.sqlTexts (v : View) : List String :=
  v.implementation :: v.expressions

/-- All texts of a schema that scripts have in them as they are. -/
def sqlTexts (s : Schema) : List String :=
  s.sqlBefore ++ s.itemTypes.flatMap ItemType.sqlTexts ++ s.views.flatMap View.sqlTexts ++
    s.rights.flatMap Right.expressions ++ s.sqlAfter

end LearningStore.Schema

namespace LearningStore.Script

open LearningStore.Schema
open LearningStore.Text
open LearningStore.Value

variable {inWord : Char → Bool}

/-! ## Lines of scripts -/

/-- The lines of a script as it is written.  Irreducible, since the lines of a statement are long
to compute and lemmas tell all about them. -/
@[irreducible] def scriptRows (script : List Statement) : List (List Char) :=
  (scriptLines script).flatMap Line.rows

theorem lines_scriptText (script : List Statement) :
    lines (scriptText script).toList = scriptRows script := by
  rw [scriptRows]
  exact lines_renderLines _

theorem scriptRows_append (a b : List Statement) :
    scriptRows (a ++ b) = scriptRows a ++ scriptRows b := by
  simp only [scriptRows, scriptLines, List.flatMap_append]

theorem scriptRows_nil : scriptRows [] = [] := by
  rw [scriptRows]
  rfl

theorem scriptRows_cons (st : Statement) (rest : List Statement) :
    scriptRows (st :: rest) = st.lines.flatMap Line.rows ++ scriptRows rest := by
  simp only [scriptRows, scriptLines, List.flatMap_cons, List.flatMap_append]

/-- A script whose statements fit, stay inside their batch and create no function. -/
def Calm (inWord : Char → Bool) (script : List Statement) : Prop :=
  ∀ st ∈ script, st.Fits inWord ∧ st.isCalm = true

section Calm

variable {a b : List Statement} {st : Statement}

theorem calm_append : Calm inWord (a ++ b) ↔ Calm inWord a ∧ Calm inWord b :=
  List.forall_mem_append

theorem calm_cons :
    Calm inWord (st :: b) ↔ (st.Fits inWord ∧ st.isCalm = true) ∧ Calm inWord b :=
  List.forall_mem_cons

theorem calm_nil : Calm inWord [] :=
  nofun

theorem Calm.flatMap {α : Type} {xs : List α} {f : α → List Statement}
    (each : ∀ x ∈ xs, Calm inWord (f x)) : Calm inWord (xs.flatMap f) := by
  intro st inside
  obtain ⟨x, member, found⟩ := List.mem_flatMap.mp inside
  exact each x member st found

theorem Calm.steady (ends : EndsAtBlanks inWord) (calm : Calm inWord a) :
    ∀ r ∈ scriptRows a, Steady inWord r := by
  rw [scriptRows]
  refine SteadyLines.rows fun l inside => ?_
  obtain ⟨st, member, found⟩ := List.mem_flatMap.mp inside
  exact (calm st member).1.steady ends (calm st member).2 l found

end Calm

/-! ## Scripts in order -/

section Order

variable {a b : List Statement} {fresh : Bool}

theorem orderly_calm (ends : EndsAtBlanks inWord) (calm : Calm inWord a)
    (rest : Orderly inWord false (scriptRows b)) : Orderly inWord fresh (scriptRows (a ++ b)) := by
  rw [scriptRows_append]
  exact orderly_append_steady (calm.steady ends) rest

theorem rows_endBatch : (Statement.endBatch.lines.flatMap Line.rows) = ["GO".toList] := by
  decide

theorem orderly_endBatch (rest : Orderly inWord true (scriptRows b)) :
    Orderly inWord fresh (scriptRows (.endBatch :: b)) := by
  rw [scriptRows_cons, rows_endBatch]
  exact orderly_cons_go (by decide) rest

theorem orderly_blank (rest : Orderly inWord fresh (scriptRows b)) :
    Orderly inWord fresh (scriptRows (.blank :: b)) := by
  rw [scriptRows_cons]
  refine orderly_append_idle ?_ rest
  exact (by decide : ∀ r ∈ Statement.blank.lines.flatMap Line.rows, isIdle r = true)

theorem isIdle_comment {text : String} (row : OneRow text) :
    ∀ r ∈ (Statement.comment text).lines.flatMap Line.rows, isIdle r = true := by
  have single : (Statement.comment text).lines.flatMap Line.rows =
      [withoutReturn ("-- " ++ text).toList] := by
    have whole : OneRow ("-- " ++ text) := (by decide : OneRow "-- ").append row
    rw [Statement.lines, List.flatMap_cons, List.flatMap_nil, List.append_nil, Line.rows_line,
      rows_single whole]
    rfl
  have spelled : ("-- " ++ text).toList = "--".toList ++ ' ' :: text.toList := by simp
  have dash : ∀ c ∈ some '-', isBlank c = false := fun c here => Option.some.inj here ▸ rfl
  have trimmed := trim_solid_append (s := "--".toList) (by decide) dash dash (' ' :: text.toList)
  rw [single, List.forall_mem_singleton, isIdle, trim_withoutReturn, spelled, trimmed,
    Bool.or_eq_true]
  exact .inr (List.isPrefixOf_iff_prefix.mpr (List.prefix_append _ _))

theorem orderly_comment {text : String} (row : OneRow text)
    (rest : Orderly inWord fresh (scriptRows b)) :
    Orderly inWord fresh (scriptRows (.comment text :: b)) := by
  rw [scriptRows_cons]
  exact orderly_append_idle (isIdle_comment row) rest

theorem orderly_closeBatch (rest : Orderly inWord true (scriptRows b)) :
    Orderly inWord fresh (scriptRows (closeBatch ++ b)) :=
  orderly_endBatch (orderly_blank rest)

/-- A function with its comment, on one row, and with what it relies on. -/
structure Described.Fits (inWord : Char → Bool) (d : Described) : Prop where
  purpose : OneRow d.purpose
  function : d.function.Fits inWord

/-- A function may be created where a batch starts, and a batch starts behind it. -/
theorem orderly_createFunction (ends : EndsAtBlanks inWord) {d : Described} (fits : d.Fits inWord)
    (rest : Orderly inWord true (scriptRows b)) :
    Orderly inWord true (scriptRows (createFunction d ++ b)) := by
  obtain ⟨first, later, split, noGo, steady⟩ := fits.function.rows ends
  have granted : Calm inWord [.grant (permissionOf d.function) d.function.name] :=
    calm_cons.mpr ⟨⟨fits.function.name, rfl⟩, calm_nil⟩
  have closed : Orderly inWord false (scriptRows (.endBatch :: .blank :: b)) :=
    orderly_endBatch (orderly_blank rest)
  have behind : Orderly inWord false (scriptRows (.endBatch ::
      ([.grant (permissionOf d.function) d.function.name] ++ .endBatch :: .blank :: b))) :=
    orderly_endBatch (orderly_calm ends granted closed)
  have created : Orderly inWord true (scriptRows (.createFunction d.function :: .endBatch ::
      ([.grant (permissionOf d.function) d.function.name] ++ .endBatch :: .blank :: b))) := by
    rw [scriptRows_cons, Statement.lines, split, List.cons_append]
    exact orderly_cons_first noGo (orderly_append_steady steady behind)
  have whole := orderly_comment fits.purpose created
  rw [createFunction_eq, grantFunction]
  simp only [List.cons_append, List.nil_append] at whole ⊢
  exact whole

theorem orderly_createFunctions (ends : EndsAtBlanks inWord) {ds : List Described}
    (fits : ∀ d ∈ ds, d.Fits inWord) (rest : Orderly inWord true (scriptRows b)) :
    Orderly inWord true (scriptRows (ds.flatMap createFunction ++ b)) := by
  induction ds with
  | nil => exact rest
  | cons d ds ih =>
      obtain ⟨here, others⟩ := List.forall_mem_cons.mp fits
      rw [List.flatMap_cons, List.append_assoc]
      exact orderly_createFunction ends here (ih others)

end Order

/-! ## Parts of scripts -/

/-- The name of an SQL type without its length. -/
def SqlType.word : SqlType → String
  | .fixed name => name
  | .sized name _ => name

theorem oneRow_sqlType (t : ValueType) (length : Option Int) : OneRow (t.sqlType length) := by
  have word : OneRow (SqlType.word t.descriptor.sqlType) := by
    cases t <;> decide
  unfold ValueType.sqlType
  split
  next name fixed =>
    rw [fixed] at word
    exact word
  next name limit sized =>
    rw [sized] at word
    have unlimited : OneRow (name ++ "(max)") := word.append (by decide)
    split
    next n =>
      split
      next => exact ((word.append (by decide)).append (oneRow_integerText n)).append (by decide)
      next => exact unlimited
    next => exact unlimited

section Parts

variable {s : Schema}

theorem calm_snippets {texts : List String} (quiet : ∀ text ∈ texts, Quiet inWord text.toList) :
    Calm inWord (snippets texts) :=
  .flatMap fun text inside => calm_cons.mpr
    ⟨⟨quiet text inside, rfl⟩, calm_cons.mpr ⟨⟨trivial, rfl⟩, calm_nil⟩⟩

/-- A comment on one row, and statements that fit. -/
theorem calm_commented {text : String} {script : List Statement} (row : OneRow text)
    (calm : Calm inWord script) : Calm inWord (.comment text :: script) :=
  calm_cons.mpr ⟨⟨row, rfl⟩, calm⟩

theorem calm_blank : Calm inWord [.blank] :=
  calm_cons.mpr ⟨⟨trivial, rfl⟩, calm_nil⟩

theorem calm_guard {condition message : String} (conditionRow : OneRow condition)
    (messageRow : OneRow message) : Calm inWord [.raiseIf condition message, .blank] :=
  calm_cons.mpr ⟨⟨⟨conditionRow, messageRow⟩, rfl⟩, calm_blank⟩

/-- Both scripts start with the header and the guard of the database of the server. -/
theorem calm_opening : Calm inWord (header ++ guardMaster) := by
  refine calm_append.mpr ⟨?_, calm_guard (oneRow_ofList (by decide))
    (oneRow_ofList_append (by decide) (by decide))⟩
  exact calm_commented (oneRow_ofList (by decide))
    (calm_commented (oneRow_ofList (by decide)) calm_blank)

theorem calm_sessionSettings : Calm inWord sessionSettings := by
  have turnOn {setting : String} {script : List Statement} (row : OneRow setting)
      (calm : Calm inWord script) : Calm inWord (.turnOn setting :: script) :=
    calm_cons.mpr ⟨⟨row, rfl⟩, calm⟩
  exact turnOn (oneRow_ofList (by decide)) (turnOn (oneRow_ofList (by decide))
    (turnOn (oneRow_ofList (by decide)) (turnOn (oneRow_ofList (by decide)) calm_blank)))

theorem exists_of_mem_enumRows {seen : List Int} {values : List EnumValue} {row : Int × String}
    (inside : row ∈ enumRows seen values) : ∃ v ∈ values, row.2 = v.name := by
  induction values generalizing seen with
  | nil => cases inside
  | cons v rest ih =>
      rw [enumRows] at inside
      split at inside
      next =>
        obtain ⟨w, member, same⟩ := ih inside
        exact ⟨w, List.mem_cons_of_mem v member, same⟩
      next =>
        rcases List.mem_cons.mp inside with rfl | later
        · exact ⟨v, List.mem_cons_self, rfl⟩
        · obtain ⟨w, member, same⟩ := ih later
          exact ⟨w, List.mem_cons_of_mem v member, same⟩

theorem oneRow_tableTitle {name : String} (row : OneRow name) :
    OneRow ("Create the " ++ name ++ " table") :=
  ((oneRow_ofList (by decide) : OneRow "Create the ").append row).append (oneRow_ofList (by decide))

theorem calm_enumTable (valid : s.Valid) {e : EnumType} (member : e ∈ s.enums) :
    Calm inWord (enumTable e) := by
  have name : OneRow e.name := oneRow_of_isIdentifier (valid.enums e member)
  have inserts : Calm inWord (enumInserts e) := by
    unfold enumInserts
    split
    next => exact calm_nil
    next =>
      refine calm_append.mpr ⟨calm_cons.mpr ⟨⟨name, rfl⟩, fun st inside => ?_⟩,
        calm_cons.mpr ⟨⟨name, rfl⟩, calm_nil⟩⟩
      obtain ⟨row, listed, rfl⟩ := List.mem_map.mp inside
      obtain ⟨v, value, same⟩ := exists_of_mem_enumRows listed
      refine ⟨⟨name, ?_⟩, rfl⟩
      rw [same]
      exact oneRow_of_isIdentifier (valid.enum_values e member v value)
  refine calm_append.mpr ⟨calm_append.mpr ⟨calm_commented (oneRow_tableTitle name) ?_, inserts⟩, calm_blank⟩
  exact calm_cons.mpr ⟨⟨name, rfl⟩, calm_cons.mpr ⟨⟨name, rfl⟩, calm_nil⟩⟩

/-- An item type with quiet texts alone. -/
structure ItemType.QuietTexts (inWord : Char → Bool) (i : ItemType) : Prop where
  expressions : ∀ right, ∀ text ∈ i.expressions right, Quiet inWord text.toList
  defaults : ∀ p ∈ i.properties, ∀ d ∈ p.default, QuietDefault inWord d
  constraints : ∀ p ∈ i.properties, ∀ text ∈ p.constraints, Quiet inWord text.toList
  indexes : ∀ text ∈ i.indexes, Quiet inWord text.toList
  sqlAfter : ∀ text ∈ i.sqlAfter, Quiet inWord text.toList

theorem calm_itemTypeTable (valid : s.Valid) {i : ItemType} (member : i ∈ s.itemTypes)
    (quiet : ItemType.QuietTexts inWord i) : Calm inWord (itemTypeTable i) := by
  have name : OneRow i.name := oneRow_of_isIdentifier (valid.itemTypes i member)
  have columns : ∀ c ∈ i.properties.map TableColumn.ofProperty, c.Fits inWord := by
    rw [List.forall_mem_map]
    intro p inside
    exact ⟨oneRow_of_isIdentifier (valid.properties i member p inside).member.name,
      oneRow_sqlType p.valueType p.length, quiet.defaults p inside, quiet.constraints p inside⟩
  exact calm_commented (oneRow_tableTitle name) (calm_cons.mpr ⟨⟨⟨name, columns⟩, rfl⟩,
    calm_cons.mpr ⟨⟨name, rfl⟩, calm_blank⟩⟩)

theorem calm_constraintsAndIndexes (valid : s.Valid) {i : ItemType} (member : i ∈ s.itemTypes)
    (quiet : ItemType.QuietTexts inWord i) {script : List Statement}
    (made : constraintsAndIndexes s i = .ok script) : Calm inWord script := by
  obtain ⟨keys, rfl, leads⟩ := constraintsAndIndexes_eq_ok made
  refine calm_append.mpr ⟨.flatMap fun k inside => ?_, calm_snippets quiet.indexes⟩
  obtain ⟨table, ⟨p, property, column⟩, target⟩ := leads k inside
  have key : OneRow k.table ∧ OneRow k.column ∧ OneRow k.target := by
    rw [table, column]
    refine ⟨oneRow_of_isIdentifier (valid.itemTypes i member),
      oneRow_of_isIdentifier (valid.properties i member p property).member.name, ?_⟩
    rcases target with ⟨other, known, same⟩ | ⟨other, known, same⟩
    · rw [same]
      exact oneRow_of_isIdentifier (valid.itemTypes other known)
    · rw [same]
      exact oneRow_of_isIdentifier (valid.enums other known)
  exact calm_cons.mpr ⟨⟨key, rfl⟩, calm_blank⟩

/-- A schema with quiet texts alone. -/
structure QuietTexts (inWord : Char → Bool) (s : Schema) : Prop where
  sqlBefore : ∀ text ∈ s.sqlBefore, Quiet inWord text.toList
  itemTypes : ∀ i ∈ s.itemTypes, ItemType.QuietTexts inWord i
  views : ∀ v ∈ s.views, ∀ text ∈ v.sqlTexts, Quiet inWord text.toList
  rights : ∀ r ∈ s.rights, ∀ text ∈ r.expressions, Quiet inWord text.toList
  sqlAfter : ∀ text ∈ s.sqlAfter, Quiet inWord text.toList

theorem quietTexts_of_sqlTexts (quiet : ∀ text ∈ s.sqlTexts, Quiet inWord text.toList) :
    QuietTexts inWord s := by
  simp only [Schema.sqlTexts, List.forall_mem_append, List.forall_mem_flatMap] at quiet
  obtain ⟨⟨⟨⟨before, itemTypes⟩, views⟩, rights⟩, after⟩ := quiet
  refine ⟨before, fun i member => ?_, views, rights, after⟩
  have texts := itemTypes i member
  simp only [ItemType.sqlTexts, Property.sqlTexts, List.forall_mem_append,
    List.forall_mem_flatMap] at texts
  obtain ⟨⟨⟨expressions, properties⟩, indexes⟩, behind⟩ := texts
  refine ⟨fun right => expressions right (by cases right <;> decide), ?_,
    fun p inside => (properties p inside).1, indexes, behind⟩
  intro p inside d given text free
  refine (properties p inside).2 text ?_
  rw [Option.mem_toList, Option.mem_def.mp given]
  exact free

/-! ## Functions of a schema -/

theorem quietDefault_null : QuietDefault inWord .null :=
  fun _ => nofun

theorem fits_nullableParameters {parameters : List Parameter}
    (names : ∀ p ∈ parameters, IsIdentifier p.name) :
    ∀ p ∈ nullableParameters parameters, p.Fits inWord := by
  rw [nullableParameters, List.forall_mem_map]
  intro p inside
  refine ⟨oneRow_of_isIdentifier (names p inside), oneRow_sqlType p.valueType none, ?_⟩
  rintro _ ⟨rfl⟩
  exact quietDefault_null

theorem fits_itemRightParameters (valid : s.Valid) {i : ItemType} (member : i ∈ s.itemTypes)
    (quiet : ItemType.QuietTexts inWord i) (right : ItemRight) :
    ∀ p ∈ itemRightParameters i right, p.Fits inWord := by
  have name {p : Property} (inside : p ∈ i.properties) : OneRow p.name :=
    oneRow_of_isIdentifier (valid.properties i member p inside).member.name
  have type (p : Property) : OneRow p.sqlType := oneRow_sqlType p.valueType p.length
  have id : idParameter.Fits inWord :=
    ⟨(by decide : OneRow "Id"), (by decide : OneRow "bigint"), nofun⟩
  cases right with
  | query => exact nofun
  | add =>
      refine List.forall_mem_map.mpr fun p inside => ?_
      exact ⟨name inside, type p, quiet.defaults p inside⟩
  | update =>
      refine List.forall_mem_cons.mpr ⟨id, fun parameter listed => ?_⟩
      obtain ⟨p, inside, found⟩ := List.mem_flatMap.mp listed
      rcases List.mem_pair.mp found with rfl | rfl
      · exact ⟨(name inside).append (by decide), (by decide : OneRow "bit"), nofun⟩
      · exact ⟨name inside, type p, nofun⟩
  | delete => exact List.forall_mem_singleton.mpr id

/-- The comment on a function stands on one row, and so does its name. -/
theorem oneRow_functions (valid : s.Valid) (withDefaultViews : Bool) :
    ∀ d ∈ functions s withDefaultViews, OneRow d.purpose ∧ OneRow d.function.name := by
  intro d inside
  obtain ⟨x, slot, found⟩ := List.mem_flatMap.mp (functions_perm.mem_iff.mp inside)
  rcases mem_slots_iff.mp slot with ⟨i, member, rfl | ⟨right, rfl⟩⟩ | ⟨v, member, rfl | rfl⟩ |
    ⟨r, member, rfl⟩
  · cases withDefaultViews with
    | false => cases found
    | true =>
        obtain rfl := List.mem_singleton.mp found
        have owner : OneRow i.name := oneRow_of_isIdentifier (valid.itemTypes i member)
        exact ⟨.append (oneRow_ofList (by decide)) owner, owner.append (oneRow_ofList (by decide))⟩
  · obtain ⟨name, given, rfl⟩ := List.mem_map.mp found
    have owner : OneRow i.name := oneRow_of_isIdentifier (valid.itemTypes i member)
    have named := over_securityFunction (valid.itemTypes i member) (Option.mem_toList.mp given)
    refine ⟨?_, oneRow_of_isWordChar named⟩
    cases right
    all_goals exact .append (oneRow_ofList (by decide)) owner
  · obtain rfl := List.mem_singleton.mp found
    have owner : OneRow v.name := oneRow_of_isIdentifier (valid.views v member)
    have lead : OneRow "Create the " := oneRow_ofList (by decide)
    exact ⟨(lead.append owner).append (oneRow_ofList (by decide)), owner⟩
  · obtain ⟨name, given, rfl⟩ := List.mem_map.mp found
    obtain ⟨-, same⟩ := Option.ite_none_left_eq_some.mp (Option.mem_toList.mp given)
    cases same
    have owner : OneRow v.name := oneRow_of_isIdentifier (valid.views v member)
    exact ⟨.append (oneRow_ofList (by decide)) owner, owner.append (oneRow_ofList (by decide))⟩
  · obtain ⟨name, given, rfl⟩ := List.mem_map.mp found
    obtain ⟨-, same⟩ := Option.ite_none_left_eq_some.mp (Option.mem_toList.mp given)
    cases same
    have owner : OneRow r.name := oneRow_of_isIdentifier (valid.rights r member)
    have lead : OneRow "Create the function that checks the " := oneRow_ofList (by decide)
    exact ⟨(lead.append owner).append (oneRow_ofList (by decide)), owner⟩

theorem fits_defaultViewBody (valid : s.Valid) {i : ItemType} (member : i ∈ s.itemTypes) :
    (defaultViewFunction i).function.body.Fits inWord :=
  ⟨List.forall_mem_map.mpr fun p inside =>
    oneRow_of_isIdentifier (valid.properties i member p inside).member.name,
    oneRow_of_isIdentifier (valid.itemTypes i member)⟩

/-- All functions of a schema fit whose texts are quiet. -/
theorem fits_functions (valid : s.Valid) (quiet : QuietTexts inWord s) (withDefaultViews : Bool) :
    ∀ d ∈ functions s withDefaultViews, d.Fits inWord := by
  intro d inside
  obtain ⟨purpose, name⟩ := oneRow_functions valid withDefaultViews d inside
  suffices rest : (∀ p ∈ d.function.parameters, p.Fits inWord) ∧ d.function.body.Fits inWord from
    ⟨purpose, name, rest.1, rest.2⟩
  obtain ⟨x, slot, found⟩ := List.mem_flatMap.mp (functions_perm.mem_iff.mp inside)
  rcases mem_slots_iff.mp slot with ⟨i, member, rfl | ⟨right, rfl⟩⟩ | ⟨v, member, rfl | rfl⟩ |
    ⟨r, member, rfl⟩
  · cases withDefaultViews with
    | false => cases found
    | true =>
        obtain rfl := List.mem_singleton.mp found
        exact ⟨nofun, fits_defaultViewBody valid member⟩
  · obtain ⟨_, -, rfl⟩ := List.mem_map.mp found
    exact ⟨fits_itemRightParameters valid member (quiet.itemTypes i member) right,
      (quiet.itemTypes i member).expressions right⟩
  · obtain rfl := List.mem_singleton.mp found
    exact ⟨fits_nullableParameters fun p known => (valid.view_parameters v member p known).name,
      quiet.views v member _ List.mem_cons_self⟩
  · obtain ⟨_, -, rfl⟩ := List.mem_map.mp found
    exact ⟨fits_nullableParameters fun p known => (valid.view_parameters v member p known).name,
      fun text known => quiet.views v member text (List.mem_cons_of_mem _ known)⟩
  · obtain ⟨_, -, rfl⟩ := List.mem_map.mp found
    exact ⟨fits_nullableParameters fun p known => (valid.right_parameters r member p known).name,
      quiet.rights r member⟩

/-! ## Whole scripts -/

/-- The first batch of the script that creates a store. -/
def firstBatch (s : Schema) (document : List Record) (constraints : List (List Statement)) :
    List Statement :=
  initFront s ++ .setDocument document :: ([.insertConfiguration, .blank] ++ createRole ++
    s.enums.flatMap enumTable ++ s.itemTypes.flatMap itemTypeTable ++ constraints.flatten)

/-- What follows the functions in it, but for the end of the batch. -/
def lastBatch (s : Schema) : List Statement :=
  snippets (s.itemTypes.flatMap fun i => i.sqlAfter) ++ snippets s.sqlAfter ++ [.commit]

theorem init_eq_batches {script : List Statement} (made : init s = .ok script) :
    ∃ document constraints, records s = .ok document ∧
      s.itemTypes.mapM (constraintsAndIndexes s) = .ok constraints ∧
      script = firstBatch s document constraints ++
        (closeBatch ++ (createFunctions s true ++ (lastBatch s ++ closeBatch))) := by
  obtain ⟨document, constraints, recorded, constrained, rfl⟩ := init_eq_ok made
  refine ⟨document, constraints, recorded, constrained, ?_⟩
  simp [firstBatch, lastBatch, initMiddle, initBack, commit]

theorem calm_firstBatch (valid : s.Valid) (quiet : QuietTexts inWord s) {document : List Record}
    {constraints : List (List Statement)} (recorded : records s = .ok document)
    (constrained : s.itemTypes.mapM (constraintsAndIndexes s) = .ok constraints) :
    Calm inWord (firstBatch s document constraints) := by
  have stored : (Statement.setDocument document).Fits inWord := simple_records valid recorded
  have front : Calm inWord (initFront s) := by
    refine calm_append.mpr ⟨calm_append.mpr ⟨calm_append.mpr ⟨calm_opening,
      calm_sessionSettings⟩, calm_snippets quiet.sqlBefore⟩, ?_⟩
    exact calm_commented (oneRow_ofList (by decide)) (calm_cons.mpr ⟨⟨trivial, rfl⟩, calm_nil⟩)
  have role : Calm inWord createRole :=
    calm_commented (by decide)
      (calm_cons.mpr ⟨⟨trivial, rfl⟩, calm_cons.mpr ⟨⟨trivial, rfl⟩, calm_blank⟩⟩)
  have keys : Calm inWord constraints.flatten := by
    rw [← List.flatMap_id]
    refine .flatMap fun script inside => ?_
    obtain ⟨i, member, part⟩ := (mem_of_mapM constrained).mp inside
    exact calm_constraintsAndIndexes valid member (quiet.itemTypes i member) part
  refine calm_append.mpr ⟨front, calm_cons.mpr ⟨⟨stored, rfl⟩, calm_append.mpr ⟨calm_append.mpr
    ⟨calm_append.mpr ⟨calm_append.mpr ⟨?_, role⟩, ?_⟩, ?_⟩, keys⟩⟩⟩
  · exact calm_cons.mpr ⟨⟨trivial, rfl⟩, calm_blank⟩
  · exact .flatMap fun e member => calm_enumTable valid member
  · exact .flatMap fun i member => calm_itemTypeTable valid member (quiet.itemTypes i member)

theorem calm_commit : Calm inWord [.commit] :=
  calm_cons.mpr ⟨⟨trivial, rfl⟩, calm_nil⟩

theorem calm_lastBatch (quiet : QuietTexts inWord s) : Calm inWord (lastBatch s) := by
  refine calm_append.mpr ⟨calm_append.mpr ⟨calm_snippets fun text inside => ?_,
    calm_snippets quiet.sqlAfter⟩, calm_commit⟩
  obtain ⟨i, member, found⟩ := List.mem_flatMap.mp inside
  exact (quiet.itemTypes i member).sqlAfter text found

/-- The functions of a schema with the end of the batch before them, and one batch behind them. -/
theorem orderly_functions (ends : EndsAtBlanks inWord) (valid : s.Valid)
    (quiet : QuietTexts inWord s) (withDefaultViews : Bool) {fresh : Bool} {back : List Statement}
    (calm : Calm inWord back) :
    Orderly inWord fresh (scriptRows
      (closeBatch ++ (createFunctions s withDefaultViews ++ (back ++ closeBatch)))) := by
  have closed : Orderly inWord false (scriptRows closeBatch) := by
    refine orderly_endBatch (orderly_blank ?_)
    rw [scriptRows_nil]
    trivial
  refine orderly_closeBatch (orderly_createFunctions ends
    (fits_functions valid quiet withDefaultViews) ?_)
  exact orderly_calm ends calm closed

theorem orderly_init (ends : EndsAtBlanks inWord) (valid : s.Valid) (quiet : QuietTexts inWord s)
    {script : List Statement} (made : init s = .ok script) :
    Orderly inWord true (scriptRows script) := by
  obtain ⟨document, constraints, recorded, constrained, rfl⟩ := init_eq_batches made
  exact orderly_calm ends (calm_firstBatch valid quiet recorded constrained)
    (orderly_functions ends valid quiet true (calm_lastBatch quiet))

theorem oneRow_securityAttribute (right : ItemRight) : OneRow (securityAttribute right) := by
  cases right <;> decide

theorem calm_deleteRecorded : Calm inWord deleteRecorded := by
  refine calm_append.mpr ⟨List.forall_mem_map.mpr fun right _ => ?_, ?_⟩
  · exact ⟨oneRow_securityAttribute right, rfl⟩
  · exact calm_cons.mpr ⟨⟨(by decide : OneRow "View"), rfl⟩,
      calm_cons.mpr ⟨⟨(by decide : OneRow "Right"), rfl⟩, calm_nil⟩⟩

theorem calm_insertGuards (valid : s.Valid) : Calm inWord (insertGuards s) := by
  refine .flatMap fun i member => List.forall_mem_map.mpr fun entry inside => ⟨?_, rfl⟩
  have identifier := valid.itemTypes i member
  obtain ⟨right, -, made⟩ := List.mem_filterMap.mp inside
  obtain ⟨function, guarded, rfl⟩ := Option.map_eq_some_iff.mp made
  exact ⟨oneRow_of_isIdentifier identifier, oneRow_securityAttribute right,
    oneRow_of_isWordChar (over_securityFunction identifier guarded)⟩

/-- The first batch of the script that upgrades a store. -/
def upgradeOpening : List Statement :=
  header ++ guardMaster ++ guardEmpty ++ sessionSettings ++ dropFunctions

/-- Its second batch, which changes the stored document. -/
def upgradeChanges (s : Schema) (added : List Record) : List Statement :=
  [.comment "Replace the view, right and security information in the schema document",
    .declareCommand] ++ deleteRecorded ++ insertGuards s ++ added.map .insertRecord

theorem upgrade_eq_batches {script : List Statement} (made : upgrade s = .ok script) :
    ∃ views rights, s.views.mapM (viewRecord s) = .ok views ∧
      s.rights.mapM (rightRecord s) = .ok rights ∧
      script = upgradeOpening ++ (closeBatch ++ (upgradeChanges s (views ++ rights) ++
        (closeBatch ++ (createFunctions s false ++ ([.commit] ++ closeBatch))))) := by
  obtain ⟨views, rights, viewed, righted, rfl⟩ := upgrade_eq_ok made
  refine ⟨views, rights, viewed, righted, ?_⟩
  simp [upgradeFront, upgradeOpening, upgradeChanges, commit]

theorem calm_upgradeOpening : Calm inWord upgradeOpening := by
  refine calm_append.mpr ⟨calm_append.mpr ⟨calm_append.mpr ⟨calm_opening, ?_⟩,
    calm_sessionSettings⟩, ?_⟩
  · exact calm_guard (oneRow_ofList_append (by decide) (by decide))
      (oneRow_ofList_append (by decide) (by decide))
  · exact calm_commented (oneRow_ofList (by decide)) (calm_cons.mpr ⟨⟨trivial, rfl⟩, calm_blank⟩)

theorem calm_upgradeChanges (valid : s.Valid) {added : List Record}
    (simple : ∀ r ∈ added, r.Simple) : Calm inWord (upgradeChanges s added) := by
  refine calm_append.mpr ⟨calm_append.mpr ⟨calm_append.mpr ⟨?_, calm_deleteRecorded⟩,
    calm_insertGuards valid⟩, List.forall_mem_map.mpr fun r inside => ⟨simple r inside, rfl⟩⟩
  exact calm_commented (oneRow_ofList (by decide)) (calm_cons.mpr ⟨⟨trivial, rfl⟩, calm_nil⟩)

theorem orderly_upgrade (ends : EndsAtBlanks inWord) (valid : s.Valid)
    (quiet : QuietTexts inWord s) {script : List Statement} (made : upgrade s = .ok script) :
    Orderly inWord true (scriptRows script) := by
  obtain ⟨views, rights, viewed, righted, rfl⟩ := upgrade_eq_batches made
  have simple : ∀ r ∈ views ++ rights, r.Simple := by
    refine List.forall_mem_append.mpr ⟨fun r inside => ?_, fun r inside => ?_⟩
    · obtain ⟨v, member, recorded⟩ := (mem_of_mapM viewed).mp inside
      exact simple_viewRecord valid member recorded
    · obtain ⟨v, member, recorded⟩ := (mem_of_mapM righted).mp inside
      exact simple_rightRecord valid member recorded
  refine orderly_calm ends calm_upgradeOpening (orderly_closeBatch ?_)
  exact orderly_calm ends (calm_upgradeChanges valid simple)
    (orderly_functions ends valid quiet false calm_commit)

/-! ## The first batch -/

/-- Whether a statement makes a table, relates two of them, or puts rows into one. -/
def Statement.setsUp : Statement → Bool
  | insertConfiguration | identityInsert _ _ | insertRow _ _ _ => true
  | st => st.definesTable

/-- Whatever sets up tables is in the first batch, with all that comes before it. -/
def SetsUpFirst (script : List Statement) : Prop :=
  ∀ front st back, script = front ++ st :: back → st.setsUp = true →
    ∃ batch later, batches (scriptText script) = batch :: later ∧
      lines (scriptText (front ++ [st])).toList <+: batch

/-- The first batch of a script goes as far as its statements stay in it. -/
theorem batches_of_calm (ends : EndsAtBlanks inWord) {a : List Statement} (calm : Calm inWord a)
    (rest : List Statement) : batches (scriptText (a ++ .endBatch :: rest)) =
      scriptRows a :: (scriptRows rest).splitOnP isGo := by
  rw [batches, lines_scriptText, scriptRows_append, scriptRows_cons, rows_endBatch]
  exact List.splitOnP_append_cons_of_forall_mem (fun r inside => (calm.steady ends r inside).noGo)
    _ (by decide) _

/-- What does not stand in the back of a list stands in its front. -/
theorem exists_of_append_eq {α : Type} {a c front back : List α} {x : α} (outside : x ∉ c)
    (same : a ++ c = front ++ x :: back) : ∃ others, a = front ++ x :: others := by
  rcases List.append_eq_append_iff.mp same with ⟨m, -, rest⟩ | ⟨m, whole, rest⟩
  · rw [rest] at outside
    exact absurd (List.mem_append_right m List.mem_cons_self) outside
  · cases m with
    | nil =>
        rw [List.nil_append] at rest
        rw [← rest] at outside
        exact absurd List.mem_cons_self outside
    | cons next m =>
        obtain ⟨rfl, -⟩ := List.cons.inj rest
        exact ⟨m, whole⟩

/-- Behind the end of its first batch the script that creates a store sets up nothing. -/
theorem setsUp_later (s : Schema) : ∀ st ∈ closeBatch ++ (createFunctions s true ++
    (lastBatch s ++ closeBatch)), st.setsUp = false := by
  have close : ∀ st ∈ closeBatch, st.setsUp = false := by decide
  have snippet (texts : List String) : ∀ st ∈ snippets texts, st.setsUp = false := by
    intro st inside
    obtain ⟨text, -, found⟩ := List.mem_flatMap.mp inside
    rcases List.mem_pair.mp found with rfl | rfl <;> rfl
  have functions : ∀ st ∈ createFunctions s true, st.setsUp = false := by
    intro st inside
    obtain ⟨d, -, found⟩ := List.mem_flatMap.mp inside
    simp only [createFunction, List.mem_cons, List.not_mem_nil, or_false] at found
    rcases found with rfl | rfl | rfl | rfl | rfl | rfl <;> rfl
  have last : ∀ st ∈ lastBatch s, st.setsUp = false :=
    List.forall_mem_append.mpr ⟨List.forall_mem_append.mpr ⟨snippet _, snippet _⟩, by decide⟩
  exact List.forall_mem_append.mpr ⟨close, List.forall_mem_append.mpr ⟨functions,
    List.forall_mem_append.mpr ⟨last, close⟩⟩⟩

theorem setsUpFirst_init (ends : EndsAtBlanks inWord) (valid : s.Valid)
    (quiet : QuietTexts inWord s) {script : List Statement} (made : init s = .ok script) :
    SetsUpFirst script := by
  obtain ⟨document, constraints, recorded, constrained, rfl⟩ := init_eq_batches made
  have calm := calm_firstBatch valid quiet recorded constrained
  have later := setsUp_later s
  intro front st back cut sets
  have outside : st ∉ closeBatch ++ (createFunctions s true ++ (lastBatch s ++ closeBatch)) := by
    intro inside
    rw [later st inside] at sets
    cases sets
  obtain ⟨others, first⟩ := exists_of_append_eq outside cut
  refine ⟨_, _, batches_of_calm ends calm _, ?_⟩
  have regrouped : front ++ st :: others = front ++ [st] ++ others := by simp
  rw [lines_scriptText, first, regrouped, scriptRows_append (front ++ [st])]
  exact List.prefix_append _ _

end Parts

/-- In both scripts a function is created at the start of its batch.  The script that creates a
store sets up its tables in the first batch, and everything that a statement relies on comes before
it.  The characters that go on with a word may be any but blanks. -/
theorem batched_of_finished {s : Schema} (ends : EndsAtBlanks inWord) (finished : s.Finished)
    (quiet : ∀ text ∈ s.sqlTexts, Quiet inWord text.toList) : ∃ first next,
      init s = .ok first ∧ upgrade s = .ok next ∧
      (∀ batch ∈ batches (scriptText first), BatchFits inWord batch) ∧
      (∀ batch ∈ batches (scriptText next), BatchFits inWord batch) ∧
      SetsUpFirst first ∧ Founded first := by
  obtain ⟨d, sound, complete, rfl⟩ := finished.drafts
  have valid := sound.valid complete
  have texts := quietTexts_of_sqlTexts quiet
  obtain ⟨first, made⟩ := succeeds_init valid
  obtain ⟨next, upgraded⟩ := succeeds_upgrade valid
  refine ⟨first, next, made, upgraded, ?_, ?_, setsUpFirst_init ends valid texts made,
    founded_init made⟩
  · rw [batches, lines_scriptText]
    exact (orderly_init ends valid texts made).fits
  · rw [batches, lines_scriptText]
    exact (orderly_upgrade ends valid texts upgraded).fits

theorem batched_sample : EndsAtBlanks isLetter ∧ Sample.schema.Finished ∧
    (∀ text ∈ Sample.schema.sqlTexts, Quiet isLetter text.toList) ∧ ∃ first next,
      init Sample.schema = .ok first ∧ upgrade Sample.schema = .ok next ∧
      (∀ batch ∈ batches (scriptText first), BatchFits isLetter batch) ∧
      (∀ batch ∈ batches (scriptText next), BatchFits isLetter batch) ∧
      SetsUpFirst first ∧ Founded first := by
  have checked : ∀ text ∈ Sample.schema.sqlTexts,
      (∀ l ∈ lines text.toList, isGo l = false) ∧ 'u' ∉ text.toList.map lowerLetter := by
    decide
  have quiet : ∀ text ∈ Sample.schema.sqlTexts, Quiet isLetter text.toList := by
    intro text inside
    obtain ⟨noGo, lacks⟩ := checked text inside
    exact ⟨noGo, not_mentionsFunction_of_lacks (by decide) lacks⟩
  exact ⟨endsAtBlanks_isLetter, Sample.schema_finished, quiet,
    batched_of_finished endsAtBlanks_isLetter Sample.schema_finished quiet⟩

end LearningStore.Script
