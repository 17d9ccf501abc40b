import LearningStore.Proofs.Script.FineStatements

/-!
# Scripts of closed fragments

In both scripts for a schema whose fragments are closed, every segment is fine: what is made
starts afresh and closes all it opens, and so does every fragment by itself.
-/

namespace LearningStore.Schema

open LearningStore.Value

/-- The fragments of a property: its constraints, and its default if that is an expression. -/
def Property.fragments (p : Property) : List String :=
  p.constraints ++ Script.defaultFragments p.default

def ItemType.fragments (i : ItemType) : List String :=
  ItemRight.all.flatMap i.expressions ++ i.properties.flatMap Property.fragments ++ i.indexes ++
    i.sqlAfter

/-- All fragments of a schema. -/
def fragments (s : Schema) : List String :=
  s.sqlBefore ++ s.itemTypes.flatMap ItemType.fragments ++ s.views.flatMap View.sqlTexts ++
    s.rights.flatMap Right.expressions ++ s.sqlAfter

end LearningStore.Schema

namespace LearningStore.Script

open LearningStore.Schema
open LearningStore.Text
open LearningStore.Value

variable {s : Schema}

/-! ## Closed fragments -/

/-- A schema with closed fragments alone. -/
structure ClosedFragments (s : Schema) : Prop where
  sqlBefore : ∀ t ∈ s.sqlBefore, Closed t.toList
  expressions : ∀ i ∈ s.itemTypes, ∀ right, ∀ t ∈ i.expressions right, Closed t.toList
  properties : ∀ i ∈ s.itemTypes, ∀ p ∈ i.properties, ∀ t ∈ p.fragments, Closed t.toList
  indexes : ∀ i ∈ s.itemTypes, ∀ t ∈ i.indexes, Closed t.toList
  itemTypesAfter : ∀ i ∈ s.itemTypes, ∀ t ∈ i.sqlAfter, Closed t.toList
  views : ∀ v ∈ s.views, ∀ t ∈ v.sqlTexts, Closed t.toList
  rights : ∀ r ∈ s.rights, ∀ t ∈ r.expressions, Closed t.toList
  sqlAfter : ∀ t ∈ s.sqlAfter, Closed t.toList

theorem closedFragments_of_forall (closed : ∀ t ∈ s.fragments, Closed t.toList) :
    ClosedFragments s := by
  simp only [Schema.fragments, ItemType.fragments, List.forall_mem_append,
    List.forall_mem_flatMap] at closed
  obtain ⟨⟨⟨⟨before, itemTypes⟩, views⟩, rights⟩, after⟩ := closed
  exact ⟨before, fun i member right => (itemTypes i member).1.1.1 right (by cases right <;> decide),
    fun i member => (itemTypes i member).1.1.2, fun i member => (itemTypes i member).1.2,
    fun i member => (itemTypes i member).2, views, rights, after⟩

/-! ## Parts of scripts -/

/-- A script whose segments are fine. -/
def FineScript (script : List Statement) : Prop :=
  ∀ st ∈ script, st.Fine

section Parts

variable {a b : List Statement}

theorem fineScript_append : FineScript (a ++ b) ↔ FineScript a ∧ FineScript b :=
  List.forall_mem_append

theorem FineScript.flatMap {α : Type} {xs : List α} {f : α → List Statement}
    (each : ∀ x ∈ xs, FineScript (f x)) : FineScript (xs.flatMap f) := by
  intro st inside
  obtain ⟨x, member, found⟩ := List.mem_flatMap.mp inside
  exact each x member st found

theorem fineScript_cons {st : Statement} : FineScript (st :: b) ↔ st.Fine ∧ FineScript b :=
  List.forall_mem_cons

/-- Statements that are the same in every script are checked line by line. -/
theorem fineScript_of_lines
    (closed : ∀ st ∈ a, st.isMade = true ∧ ∀ l ∈ st.lines, Closed l.text.toList) :
    FineScript a :=
  fun st inside => Statement.fine_of_lines (closed st inside).1 (closed st inside).2

theorem fineScript_blank : FineScript [.blank] :=
  fineScript_of_lines (by decide)

theorem fineScript_closeBatch : FineScript closeBatch :=
  fineScript_of_lines (by decide)

theorem fineScript_commit : FineScript commit :=
  fineScript_of_lines (by decide)

theorem fineScript_snippets {texts : List String} (closed : ∀ t ∈ texts, Closed t.toList) :
    FineScript (snippets texts) :=
  .flatMap fun t inside => fineScript_cons.mpr ⟨Statement.fine_snippet (closed t inside),
    fineScript_blank⟩

/-- Both scripts start with the header and the guard of the database of the server. -/
theorem fineScript_opening : FineScript (header ++ guardMaster) := by
  refine fineScript_append.mpr ⟨fineScript_cons.mpr
    ⟨Statement.fine_comment (oneRow_ofList (by decide)), fineScript_cons.mpr
      ⟨Statement.fine_comment (oneRow_ofList (by decide)), fineScript_blank⟩⟩, ?_⟩
  exact fineScript_cons.mpr ⟨Statement.fine_raiseIf (by decide) _, fineScript_blank⟩

theorem fineScript_sessionSettings : FineScript sessionSettings := by
  have turnOn {setting : String} {rest : List Statement} (even : Even setting)
      (others : FineScript rest) : FineScript (.turnOn setting :: rest) :=
    fineScript_cons.mpr ⟨Statement.fine_turnOn even, others⟩
  exact turnOn (by decide) (turnOn (by decide) (turnOn (by decide)
    (turnOn (by decide) fineScript_blank)))

end Parts

theorem fineScript_initFront (closed : ClosedFragments s) : FineScript (initFront s) :=
  fineScript_append.mpr ⟨fineScript_append.mpr ⟨fineScript_append.mpr
    ⟨fineScript_opening, fineScript_sessionSettings⟩, fineScript_snippets closed.sqlBefore⟩,
    fineScript_cons.mpr ⟨Statement.fine_comment (oneRow_ofList (by decide)),
      fineScript_of_lines (by decide)⟩⟩

theorem fineScript_enumTable (valid : s.Valid) {e : EnumType} (member : e ∈ s.enums) :
    FineScript (enumTable e) := by
  have name : Even e.name := even_of_isIdentifier (valid.enums e member)
  have title := oneRow_tableTitle (oneRow_of_isIdentifier (valid.enums e member))
  have inserts : FineScript (enumInserts e) := by
    unfold enumInserts
    split
    next => exact nofun
    next =>
      refine fineScript_append.mpr ⟨List.forall_mem_cons.mpr
        ⟨Statement.fine_identityInsert name true, List.forall_mem_map.mpr fun row _ => ?_⟩,
        List.forall_mem_singleton.mpr (Statement.fine_identityInsert name false)⟩
      exact Statement.fine_insertRow name row.1 row.2
  refine fineScript_append.mpr ⟨fineScript_append.mpr ⟨List.forall_mem_cons.mpr
    ⟨Statement.fine_comment title, List.forall_mem_cons.mpr
      ⟨Statement.fine_createEnumTable name, List.forall_mem_singleton.mpr
        (Statement.fine_grant .select name)⟩⟩, inserts⟩, fineScript_blank⟩

theorem closes_ofProperty (valid : s.Valid) (closed : ClosedFragments s) {i : ItemType}
    (member : i ∈ s.itemTypes) {p : Property} (inside : p ∈ i.properties) :
    (TableColumn.ofProperty p).Closes := by
  obtain ⟨constraints, default⟩ := List.forall_mem_append.mp (closed.properties i member p inside)
  exact ⟨even_of_isIdentifier (valid.properties i member p inside).member.name,
    even_sqlType p.valueType p.length, default, constraints⟩

theorem fineScript_itemTypeTable (valid : s.Valid) (closed : ClosedFragments s) {i : ItemType}
    (member : i ∈ s.itemTypes) : FineScript (itemTypeTable i) := by
  have name : Even i.name := even_of_isIdentifier (valid.itemTypes i member)
  have title := oneRow_tableTitle (oneRow_of_isIdentifier (valid.itemTypes i member))
  refine List.forall_mem_cons.mpr ⟨Statement.fine_comment title, List.forall_mem_cons.mpr
    ⟨Statement.fine_createTable name (List.forall_mem_map.mpr fun p inside => ?_),
      List.forall_mem_cons.mpr ⟨Statement.fine_grant .change name, fineScript_blank⟩⟩⟩
  exact closes_ofProperty valid closed member inside

theorem fineScript_constraintsAndIndexes (valid : s.Valid) (closed : ClosedFragments s)
    {i : ItemType} (member : i ∈ s.itemTypes) {script : List Statement}
    (made : constraintsAndIndexes s i = .ok script) : FineScript script := by
  obtain ⟨keys, rfl, leads⟩ := constraintsAndIndexes_eq_ok made
  refine fineScript_append.mpr ⟨.flatMap fun k inside => ?_,
    fineScript_snippets (closed.indexes i member)⟩
  obtain ⟨table, ⟨p, property, column⟩, target⟩ := leads k inside
  refine fineScript_cons.mpr ⟨Statement.fine_addForeignKey ?_ ?_ ?_, fineScript_blank⟩
  · rw [table]
    exact even_of_isIdentifier (valid.itemTypes i member)
  · rw [column]
    exact even_of_isIdentifier (valid.properties i member p property).member.name
  · rcases target with ⟨other, known, same⟩ | ⟨other, known, same⟩
    · rw [same]
      exact even_of_isIdentifier (valid.itemTypes other known)
    · rw [same]
      exact even_of_isIdentifier (valid.enums other known)

theorem fineScript_initMiddle (valid : s.Valid) (closed : ClosedFragments s)
    {constraints : List (List Statement)}
    (made : s.itemTypes.mapM (constraintsAndIndexes s) = .ok constraints) :
    FineScript (initMiddle s constraints) := by
  have role : FineScript createRole :=
    fineScript_cons.mpr ⟨Statement.fine_comment (by decide), fineScript_of_lines (by decide)⟩
  refine fineScript_append.mpr ⟨fineScript_append.mpr ⟨fineScript_append.mpr ⟨fineScript_append.mpr
    ⟨fineScript_append.mpr ⟨fineScript_of_lines (by decide), role⟩, ?_⟩, ?_⟩, ?_⟩,
    fineScript_closeBatch⟩
  · exact .flatMap fun e member => fineScript_enumTable valid member
  · exact .flatMap fun i member => fineScript_itemTypeTable valid closed member
  · rw [← List.flatMap_id]
    exact .flatMap (forall_mem_of_mapM made fun i member script part =>
      fineScript_constraintsAndIndexes valid closed member part)

theorem fineScript_initBack (closed : ClosedFragments s) : FineScript (initBack s) := by
  refine fineScript_append.mpr ⟨fineScript_append.mpr ⟨fineScript_snippets ?_,
    fineScript_snippets closed.sqlAfter⟩, fineScript_commit⟩
  exact List.forall_mem_flatMap.mpr closed.itemTypesAfter

/-! ## Functions -/

theorem closes_nullableParameters {parameters : List Parameter}
    (names : ∀ p ∈ parameters, IsIdentifier p.name) :
    ∀ p ∈ nullableParameters parameters, p.Closes :=
  List.forall_mem_map.mpr fun p inside =>
    ⟨even_of_isIdentifier (names p inside), even_sqlType p.valueType none, nofun⟩

theorem closes_itemRightParameters (valid : s.Valid) (closed : ClosedFragments s) {i : ItemType}
    (member : i ∈ s.itemTypes) (right : ItemRight) :
    ∀ p ∈ itemRightParameters i right, p.Closes := by
  have name {p : Property} (inside : p ∈ i.properties) : Even p.name :=
    even_of_isIdentifier (valid.properties i member p inside).member.name
  have type (p : Property) : Even p.sqlType := even_sqlType p.valueType p.length
  have id : idParameter.Closes :=
    ⟨(by decide : Even "Id"), (by decide : Even "bigint"), nofun⟩
  cases right with
  | query => exact nofun
  | add =>
      refine List.forall_mem_map.mpr fun p inside => ⟨name inside, type p, ?_⟩
      exact (List.forall_mem_append.mp (closed.properties i member p inside)).2
  | update =>
      refine List.forall_mem_cons.mpr ⟨id, List.forall_mem_flatMap.mpr fun p inside => ?_⟩
      exact List.forall_mem_cons.mpr
        ⟨⟨(name inside).append (b := "$Changed") (by decide), (by decide : Even "bit"), nofun⟩,
          List.forall_mem_singleton.mpr ⟨name inside, type p, nofun⟩⟩
  | delete => exact List.forall_mem_singleton.mpr id

theorem even_securityFunction {i : ItemType} (name : IsIdentifier i.name) {right : ItemRight}
    {function : String} (made : i.securityFunction? right = some function) : Even function := by
  obtain ⟨-, same⟩ := Option.ite_none_left_eq_some.mp made
  cases same
  refine (even_of_isIdentifier name).append ?_
  cases right <;> decide

/-- A function that closes what it opens, with its comment on one row. -/
structure Described.Closes (d : Described) : Prop where
  purpose : OneRow d.purpose
  function : d.function.Closes

theorem closes_functions (valid : s.Valid) (closed : ClosedFragments s)
    (withDefaultViews : Bool) : ∀ d ∈ functions s withDefaultViews, d.Closes := by
  intro d inside
  suffices function : d.function.Closes from
    ⟨(oneRow_functions valid withDefaultViews d inside).1, function⟩
  obtain ⟨x, slot, found⟩ := List.mem_flatMap.mp (functions_perm.mem_iff.mp inside)
  rcases mem_slots_iff.mp slot with ⟨i, member, rfl | ⟨right, rfl⟩⟩ | ⟨v, member, rfl | rfl⟩ |
    ⟨r, member, rfl⟩
  · cases withDefaultViews with
    | false => cases found
    | true =>
        obtain rfl := List.mem_singleton.mp found
        have owner : Even i.name := even_of_isIdentifier (valid.itemTypes i member)
        refine ⟨owner.append (b := "$DefaultView") (by decide), nofun,
          List.forall_mem_map.mpr fun p inside => ?_, owner⟩
        exact even_of_isIdentifier (valid.properties i member p inside).member.name
  · obtain ⟨name, given, rfl⟩ := List.mem_map.mp found
    exact ⟨even_securityFunction (valid.itemTypes i member) (Option.mem_toList.mp given),
      closes_itemRightParameters valid closed member right, closed.expressions i member right⟩
  · obtain rfl := List.mem_singleton.mp found
    exact ⟨even_of_isIdentifier (valid.views v member),
      closes_nullableParameters fun p known => (valid.view_parameters v member p known).name,
      closed.views v member _ List.mem_cons_self⟩
  · obtain ⟨name, given, rfl⟩ := List.mem_map.mp found
    obtain ⟨-, same⟩ := Option.ite_none_left_eq_some.mp (Option.mem_toList.mp given)
    cases same
    exact ⟨(even_of_isIdentifier (valid.views v member)).append (by decide),
      closes_nullableParameters fun p known => (valid.view_parameters v member p known).name,
      fun t known => closed.views v member t (List.mem_cons_of_mem _ known)⟩
  · obtain ⟨name, given, rfl⟩ := List.mem_map.mp found
    obtain ⟨-, same⟩ := Option.ite_none_left_eq_some.mp (Option.mem_toList.mp given)
    cases same
    exact ⟨even_of_isIdentifier (valid.rights r member),
      closes_nullableParameters fun p known => (valid.right_parameters r member p known).name,
      closed.rights r member⟩

theorem fineScript_createFunctions (valid : s.Valid) (closed : ClosedFragments s)
    (withDefaultViews : Bool) : FineScript (createFunctions s withDefaultViews) := by
  refine .flatMap fun d inside => ?_
  obtain ⟨purpose, function⟩ := closes_functions valid closed withDefaultViews d inside
  have ended : FineScript [.endBatch] := fineScript_of_lines (by decide)
  exact List.forall_mem_cons.mpr ⟨Statement.fine_comment purpose, List.forall_mem_cons.mpr
    ⟨Statement.fine_createFunction function, List.forall_mem_cons.mpr
      ⟨ended _ List.mem_cons_self, List.forall_mem_cons.mpr
        ⟨Statement.fine_grant _ function.name, fineScript_of_lines (by decide)⟩⟩⟩⟩

/-! ## Whole scripts -/

theorem fineScript_init (valid : s.Valid) (closed : ClosedFragments s) {script : List Statement}
    (made : init s = .ok script) : FineScript script := by
  obtain ⟨document, constraints, recorded, constrained, rfl⟩ := init_eq_ok made
  refine fineScript_append.mpr ⟨fineScript_append.mpr ⟨fineScript_append.mpr
    ⟨fineScript_initFront closed, List.forall_mem_cons.mpr ⟨Statement.fine_setDocument document,
      fineScript_initMiddle valid closed constrained⟩⟩,
    fineScript_createFunctions valid closed true⟩, fineScript_initBack closed⟩

/-- What both kinds of entries in the stored document lose is named without apostrophes. -/
theorem fineScript_deleteRecorded : FineScript deleteRecorded := by
  refine fineScript_append.mpr ⟨List.forall_mem_map.mpr fun right _ => ?_, fineScript_cons.mpr
    ⟨Statement.fine_deleteRecords (by decide), fineScript_cons.mpr
      ⟨Statement.fine_deleteRecords (by decide), nofun⟩⟩⟩
  refine Statement.fine_deleteAttribute ?_
  cases right <;> decide

theorem fineScript_upgradeFront : FineScript upgradeFront := by
  have guard : FineScript guardEmpty :=
    fineScript_cons.mpr ⟨Statement.fine_raiseIf
      ((even_ofList (by decide)).append (even_ofList (by decide))).closed _, fineScript_blank⟩
  have drop : FineScript dropFunctions :=
    fineScript_cons.mpr ⟨Statement.fine_comment (oneRow_ofList (by decide)), fineScript_cons.mpr
      ⟨Statement.fine_dropRecorded, fineScript_blank⟩⟩
  exact fineScript_append.mpr ⟨fineScript_append.mpr ⟨fineScript_append.mpr ⟨fineScript_append.mpr
    ⟨fineScript_append.mpr ⟨fineScript_append.mpr ⟨fineScript_opening, guard⟩,
      fineScript_sessionSettings⟩, drop⟩, fineScript_closeBatch⟩,
    fineScript_cons.mpr ⟨Statement.fine_comment (oneRow_ofList (by decide)),
      fineScript_of_lines (by decide)⟩⟩, fineScript_deleteRecorded⟩

theorem fineScript_upgrade (valid : s.Valid) (closed : ClosedFragments s)
    {script : List Statement} (made : upgrade s = .ok script) : FineScript script := by
  obtain ⟨views, rights, viewed, righted, rfl⟩ := upgrade_eq_ok made
  have guards : FineScript (insertGuards s) := by
    refine .flatMap fun i member => List.forall_mem_map.mpr fun entry inside => ?_
    have identifier := valid.itemTypes i member
    obtain ⟨right, -, given⟩ := List.mem_filterMap.mp inside
    obtain ⟨function, guarded, rfl⟩ := Option.map_eq_some_iff.mp given
    have key : Over isWordChar (securityAttribute right) := by
      cases right <;> decide
    exact Statement.fine_insertAttribute (over_identifier identifier) key
      (over_securityFunction identifier guarded)
  refine fineScript_append.mpr ⟨fineScript_append.mpr ⟨fineScript_append.mpr ⟨fineScript_append.mpr
    ⟨fineScript_append.mpr ⟨fineScript_upgradeFront, guards⟩, ?_⟩, fineScript_closeBatch⟩,
    fineScript_createFunctions valid closed false⟩, fineScript_commit⟩
  exact List.forall_mem_map.mpr fun r _ => Statement.fine_insertRecord r

end LearningStore.Script
