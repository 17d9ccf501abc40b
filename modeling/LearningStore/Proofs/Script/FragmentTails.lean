import LearningStore.Proofs.Schema.Reading
import LearningStore.Proofs.Script.FineScripts
import LearningStore.Proofs.Script.Tables

/-!
# What stands behind fragments

In both scripts for a finished schema whose fragments are closed, what is made behind a fragment on
the same row stands outside of comments if, and only if, no fragment that is followed in this way
ends in a comment up to the end of its row.
-/

namespace LearningStore.Script

open LearningStore.Schema
open LearningStore.Text
open LearningStore.Value

variable {s : Schema}

/-! ## Followed fragments -/

/-- The fragments of a column. -/
def TableColumn.fragments (c : TableColumn) : List String :=
  defaultFragments c.default ++ c.constraints.map trimmed

/-- The fragments of columns that something follows on the same row: all but one that ends the last
column. -/
def followedInTable : List TableColumn → List String
  | [] => []
  | [last] => followed last.pieces
  | c :: rest => c.fragments ++ followedInTable rest

/-- The fragments of a function that something follows on the same row: the expressions that are
defaults of parameters, and those that grant something. -/
def SqlFunction.followedFragments (f : SqlFunction) : List String :=
  f.parameters.flatMap (fun p => defaultFragments p.default) ++
    match f.body with
    | .granted expressions => expressions
    | _ => []

theorem fragment_mem_defaultPieces {lead t : String} {default : Option DefaultValue} :
    .fragment t ∈ default.toList.flatMap (defaultPieces lead) ↔ t ∈ defaultFragments default := by
  cases default with
  | none => exact ⟨nofun, nofun⟩
  | some d => cases d <;> simp [defaultPieces, defaultFragments]

theorem fragment_mem_pieces {c : TableColumn} {t : String} :
    .fragment t ∈ c.pieces ↔ t ∈ c.fragments := by
  have rowGuid : Piece.fragment t ∉ if c.rowGuid then [Piece.made " ROWGUIDCOL"] else [] := by
    split <;> simp
  have nullable : Piece.fragment t ∉ if c.nullable then [] else [Piece.made " NOT NULL"] := by
    split <;> simp
  have checked : .fragment t ∉ c.checkedLength.toList.map fun n =>
      Piece.made (" CHECK(LEN(" ++ bracketed c.name ++ ")<=" ++ integerText n ++ ")") := by
    simp
  have constraints : Piece.fragment t ∈ (c.constraints.flatMap fun text =>
      [Piece.made " ", Piece.fragment (trimmed text)]) ↔ t ∈ c.constraints.map trimmed := by
    simp [eq_comm]
  rw [TableColumn.pieces, TableColumn.fragments, List.mem_append, List.mem_append, List.mem_append,
    List.mem_append, List.mem_append, constraints, fragment_mem_defaultPieces, List.mem_append,
    List.mem_singleton]
  simp only [rowGuid, nullable, checked, reduceCtorEq, false_or, or_false]

theorem mem_followed_commaSegments {columns : List TableColumn}
    (closes : ∀ c ∈ columns, c.Closes) {t : String} :
    (∃ seg ∈ commaSegments (columns.map TableColumn.pieces), t ∈ followed seg.pieces) ↔
      t ∈ followedInTable columns := by
  fun_induction followedInTable columns with
  | case1 => simp [commaSegments]
  | case2 last => simp [commaSegments]
  | case3 c rest more ih =>
      obtain ⟨here, later⟩ := List.forall_mem_cons.mp closes
      obtain ⟨next, others, rfl⟩ := List.exists_cons_of_ne_nil more
      have comma : Chain [.made ","] := chain_made (by decide) (by decide) .nil
      have first : t ∈ followed (c.pieces ++ [.made ","]) ↔ t ∈ c.fragments := by
        rw [(here.chain.append comma).mem_followed_iff List.getLast?_concat, List.mem_append,
          fragment_mem_pieces]
        simp
      rw [List.mem_append, ← first, ← ih later, List.map_cons, List.map_cons, commaSegments,
        List.exists_mem_cons_iff]
      exact nofun

theorem mem_followed_header {f : SqlFunction} (closes : f.Closes) {t : String} :
    t ∈ followed f.headerPieces ↔ ∃ p ∈ f.parameters, t ∈ defaultFragments p.default := by
  have parameter {p : FunctionParameter} : .fragment t ∈ p.pieces ↔
      t ∈ defaultFragments p.default := by
    rw [FunctionParameter.pieces, List.mem_cons, fragment_mem_defaultPieces]
    simp
  rw [(f.chain_headerPieces closes.name closes.parameters).mem_followed_iff List.getLast?_concat,
    SqlFunction.headerPieces, List.mem_append, List.mem_append, List.mem_flatMap]
  simp [parameter]

theorem mem_followed_union {expressions : List String}
    (closed : ∀ e ∈ expressions, Closed e.toList) {t : String} :
    t ∈ followed (FunctionBody.unionPieces expressions) ↔ t ∈ expressions := by
  have chain := FunctionBody.chain_unionPieces closed
  cases expressions with
  | nil => simp [FunctionBody.unionPieces, followed]
  | cons first rest =>
      obtain ⟨ps, ends⟩ := FunctionBody.exists_concat first rest
      have last : (FunctionBody.unionPieces (first :: rest)).getLast? = some (.made ")") := by
        have listed : FunctionBody.unionPieces (first :: rest) =
            .made "RETURN " :: ps ++ [.made ")"] := congrArg (List.cons _) ends
        rw [listed, List.getLast?_concat]
      rw [chain.mem_followed_iff last]
      simp [FunctionBody.unionPieces, FunctionBody.enclosed]

/-- The fragments of a statement that something follows on the same row. -/
def Statement.followedFragments : Statement → List String
  | createTable _ columns => followedInTable columns
  | createFunction f => f.followedFragments
  | _ => []

/-- The fragments of a function or of columns are closed, and their names open nothing. -/
def Statement.Closes : Statement → Prop
  | createTable _ columns => ∀ c ∈ columns, c.Closes
  | createFunction f => f.Closes
  | _ => True

theorem not_mem_followed_ofLines {ls : List Line} {t : String} :
    ¬∃ seg ∈ ls.map Segment.ofLine, t ∈ followed seg.pieces := by
  rintro ⟨seg, inside, found⟩
  obtain ⟨l, -, rfl⟩ := List.mem_map.mp inside
  cases found

theorem exists_mem_followed_append {a b : List Segment} {t : String} :
    (∃ seg ∈ a ++ b, t ∈ followed seg.pieces) ↔
      (∃ seg ∈ a, t ∈ followed seg.pieces) ∨ ∃ seg ∈ b, t ∈ followed seg.pieces := by
  simp only [List.mem_append, or_and_right, exists_or]

theorem FunctionBody.mem_followed_segments {body : FunctionBody} (closes : body.Closes)
    {t : String} : (∃ seg ∈ body.segments, t ∈ followed seg.pieces) ↔
      ∃ expressions, body = .granted expressions ∧ t ∈ expressions := by
  cases body with
  | granted expressions =>
      rw [segments, exists_mem_followed_append]
      simp only [not_mem_followed_ofLines, false_or, List.exists_mem_cons_iff,
        mem_followed_union closes, Segment.ofLine, followed_made]
      simp [followed]
  | query text =>
      rw [segments, exists_mem_followed_append]
      simp only [not_mem_followed_ofLines, false_or, reduceCtorEq, false_and, exists_false,
        iff_false]
      simp [followed, Segment.ofLine]
  | everyRow columns table =>
      simp only [reduceCtorEq, false_and, exists_false, iff_false]
      exact not_mem_followed_ofLines

theorem SqlFunction.mem_followedFragments {f : SqlFunction} {t : String} :
    t ∈ f.followedFragments ↔ (∃ p ∈ f.parameters, t ∈ defaultFragments p.default) ∨
      ∃ expressions, f.body = .granted expressions ∧ t ∈ expressions := by
  rw [followedFragments, List.mem_append, List.mem_flatMap]
  cases f.body <;> simp

theorem Statement.mem_followed_segments {st : Statement} (closes : st.Closes) {t : String} :
    (∃ seg ∈ st.segments, t ∈ followed seg.pieces) ↔ t ∈ st.followedFragments := by
  cases st with
  | snippet text => simp [segments, followed, followedFragments]
  | createTable name columns =>
      have opening (l : Line) : followed (Segment.ofLine l).pieces = [] := rfl
      have id : (∃ seg ∈ commaSegments ([.made idDefinition] :: columns.map TableColumn.pieces),
          t ∈ followed seg.pieces) ↔ t ∈ followedInTable columns := by
        rw [← mem_followed_commaSegments closes]
        cases columns with
        | nil => simp [commaSegments, followed]
        | cons c rest =>
            rw [List.map_cons, commaSegments, List.exists_mem_cons_iff]
            · simp [followed]
            · exact List.cons_ne_nil _ _
      rw [segments, exists_mem_followed_append, List.exists_mem_cons_iff, id, opening]
      simp [opening, followedFragments]
  | createFunction f =>
      have header := mem_followed_header (f := f) closes (t := t)
      have body : (∃ seg ∈ f.body.segments, t ∈ followed seg.pieces) ↔ _ :=
        FunctionBody.mem_followed_segments closes.body
      rw [segments, List.exists_mem_cons_iff, header, body, followedFragments,
        SqlFunction.mem_followedFragments]
  | _ =>
      refine iff_of_false ?_ List.not_mem_nil
      exact not_mem_followed_ofLines

theorem forall_followed_iff {script : List Statement} (closes : ∀ st ∈ script, st.Closes)
    {P : String → Prop} : (∀ seg ∈ segments script, ∀ t ∈ followed seg.pieces, P t) ↔
      ∀ st ∈ script, ∀ t ∈ st.followedFragments, P t := by
  constructor
  · intro all st inside t member
    obtain ⟨seg, part, found⟩ := (Statement.mem_followed_segments (closes st inside)).mpr member
    exact all seg (List.mem_flatMap.mpr ⟨st, inside, part⟩) t found
  · intro all seg member t found
    obtain ⟨st, inside, part⟩ := List.mem_flatMap.mp member
    exact all st inside t
      ((Statement.mem_followed_segments (closes st inside)).mp ⟨seg, part, found⟩)

/-! ## Followed fragments of a schema -/

/-- The fragments of an item type that something follows in a function: all that grant something,
and the defaults of its properties if something grants additions. -/
def followedInGuards (i : ItemType) : List String :=
  ItemRight.all.flatMap i.expressions ++
    if i.addExpressions.isEmpty then []
    else i.properties.flatMap fun p => defaultFragments p.default

/-- The fragments of a schema that something follows on the same row of a function. -/
def followedInFunctions (s : Schema) : List String :=
  s.itemTypes.flatMap followedInGuards ++ s.views.flatMap View.expressions ++
    s.rights.flatMap Right.expressions

/-- The fragments of a schema that something follows on the same row of a table. -/
def followedInTables (s : Schema) : List String :=
  s.itemTypes.flatMap fun i => followedInTable (i.properties.map TableColumn.ofProperty)

section Functions

variable {t : String} {withDefaultViews : Bool}

theorem not_mem_nullableParameters {parameters : List Parameter} :
    ¬∃ p ∈ nullableParameters parameters, t ∈ defaultFragments p.default := by
  rintro ⟨p, inside, found⟩
  obtain ⟨q, -, rfl⟩ := List.mem_map.mp inside
  cases found

/-- A guard is there as soon as something grants what it guards. -/
theorem mem_followed_guard {expressions : List String} {function purpose : String}
    {parameters : List FunctionParameter} :
    (∃ d ∈ ((if expressions.isEmpty then none else some function).toList.map fun name =>
      (⟨purpose, ⟨name, parameters, .granted expressions⟩⟩ : Described)),
        t ∈ d.function.followedFragments) ↔
      t ∈ expressions ∨ expressions ≠ [] ∧ ∃ p ∈ parameters, t ∈ defaultFragments p.default := by
  cases expressions with
  | nil => simp
  | cons e rest => simp [SqlFunction.mem_followedFragments, or_comm]

theorem mem_followed_nullableGuard {expressions : List String} {function purpose : String}
    {parameters : List Parameter} :
    (∃ d ∈ ((if expressions.isEmpty then none else some function).toList.map fun name =>
      (⟨purpose, ⟨name, nullableParameters parameters, .granted expressions⟩⟩ : Described)),
        t ∈ d.function.followedFragments) ↔ t ∈ expressions := by
  rw [mem_followed_guard]
  exact or_iff_left fun found => not_mem_nullableParameters found.2

theorem mem_followed_itemRightSlot {i : ItemType} {right : ItemRight} :
    (∃ d ∈ (itemRightSlot i right).functions, t ∈ d.function.followedFragments) ↔
      t ∈ i.expressions right ∨ right = .add ∧ i.addExpressions ≠ [] ∧
        ∃ p ∈ i.properties, t ∈ defaultFragments p.default := by
  refine mem_followed_guard.trans (or_congr_right ?_)
  cases right with
  | query => simp [itemRightParameters]
  | add => simp [itemRightParameters, ItemType.expressions]
  | update =>
      refine iff_of_false ?_ fun found => ItemRight.noConfusion found.1
      rintro ⟨-, p, inside, found⟩
      have bare : p.default = none := by
        rcases List.mem_cons.mp inside with rfl | later
        · rfl
        · obtain ⟨q, -, rfl | ⟨rfl | _⟩⟩ := by simpa using later
          all_goals rfl
      rw [bare] at found
      cases found
  | delete => simp [itemRightParameters, idParameter, defaultFragments]

theorem mem_followedInGuards {i : ItemType} : t ∈ followedInGuards i ↔
    ∃ right, t ∈ i.expressions right ∨ right = .add ∧ i.addExpressions ≠ [] ∧
      ∃ p ∈ i.properties, t ∈ defaultFragments p.default := by
  have listed : t ∈ ItemRight.all.flatMap i.expressions ↔ ∃ right, t ∈ i.expressions right := by
    rw [List.mem_flatMap]
    exact exists_congr fun right => and_iff_right (by cases right <;> decide)
  have defaults : (t ∈ if i.addExpressions.isEmpty then [] else
      i.properties.flatMap fun p => defaultFragments p.default) ↔
        i.addExpressions ≠ [] ∧ ∃ p ∈ i.properties, t ∈ defaultFragments p.default := by
    split
    next empty => simp [List.isEmpty_iff.mp empty]
    next some => simp [mt List.isEmpty_iff.mpr some]
  rw [followedInGuards, List.mem_append, listed, defaults, exists_or, exists_eq_left]

/-- In the functions of a schema the same fragments are followed, with or without default views. -/
theorem mem_followedInFunctions :
    (∃ d ∈ functions s withDefaultViews, t ∈ d.function.followedFragments) ↔
      t ∈ followedInFunctions s := by
  have bySlot : (∃ d ∈ functions s withDefaultViews, t ∈ d.function.followedFragments) ↔
      ∃ x ∈ slots s withDefaultViews, ∃ d ∈ x.functions, t ∈ d.function.followedFragments := by
    simp only [functions_perm.mem_iff, List.mem_flatMap]
    exact ⟨fun ⟨d, ⟨x, slot, member⟩, found⟩ => ⟨x, slot, d, member, found⟩,
      fun ⟨x, slot, d, member, found⟩ => ⟨d, ⟨x, slot, member⟩, found⟩⟩
  have default {i : ItemType} : ¬∃ d ∈ (defaultViewSlot withDefaultViews i).functions,
      t ∈ d.function.followedFragments := by
    rintro ⟨d, inside, found⟩
    cases withDefaultViews with
    | false => cases inside
    | true =>
        obtain rfl := List.mem_singleton.mp inside
        cases found
  have view {v : View} : ¬∃ d ∈ (viewSlot v).functions, t ∈ d.function.followedFragments := by
    simp [viewSlot, viewFunction, SqlFunction.mem_followedFragments, not_mem_nullableParameters]
  have viewGuard {v : View} : (∃ d ∈ (viewSecuritySlot v).functions,
      t ∈ d.function.followedFragments) ↔ t ∈ v.expressions :=
    mem_followed_nullableGuard
  have right {r : Right} : (∃ d ∈ (rightSlot r).functions,
      t ∈ d.function.followedFragments) ↔ t ∈ r.expressions :=
    mem_followed_nullableGuard
  simp only [bySlot, mem_slots_iff, followedInFunctions, List.mem_append, List.mem_flatMap,
    mem_followedInGuards, ← mem_followed_itemRightSlot, ← viewGuard, ← right]
  constructor
  · rintro ⟨x, ⟨i, member, rfl | ⟨kind, rfl⟩⟩ | ⟨v, member, rfl | rfl⟩ | ⟨r, member, rfl⟩, found⟩
    · exact (default found).elim
    · exact .inl (.inl ⟨i, member, kind, found⟩)
    · exact (view found).elim
    · exact .inl (.inr ⟨v, member, found⟩)
    · exact .inr ⟨r, member, found⟩
  · rintro ((⟨i, member, kind, found⟩ | ⟨v, member, found⟩) | ⟨r, member, found⟩)
    · exact ⟨_, .inl ⟨i, member, .inr ⟨kind, rfl⟩⟩, found⟩
    · exact ⟨_, .inr (.inl ⟨v, member, .inr rfl⟩), found⟩
    · exact ⟨_, .inr (.inr ⟨r, member, rfl⟩), found⟩

end Functions

/-! ## Whole scripts -/

section Scripts

variable {script : List Statement}

/-- Only definitions of tables and functions have fragments that something follows. -/
theorem forall_followedFragments_iff {P : String → Prop} :
    (∀ st ∈ script, ∀ t ∈ st.followedFragments, P t) ↔
      (∀ st ∈ tableDefinitions script, ∀ t ∈ st.followedFragments, P t) ∧
        ∀ f ∈ created script, ∀ t ∈ f.followedFragments, P t := by
  constructor
  · refine fun all => ⟨fun st inside => all st (List.mem_filter.mp inside).1, fun f inside => ?_⟩
    obtain ⟨st, member, found⟩ := List.mem_filterMap.mp inside
    cases st with
    | createFunction g =>
        cases found
        exact all _ member
    | _ => cases found
  · rintro ⟨tables, functions⟩ st inside
    cases st with
    | createTable name columns => exact tables _ (List.mem_filter.mpr ⟨inside, rfl⟩)
    | createFunction f => exact functions f (List.mem_filterMap.mpr ⟨_, inside, rfl⟩)
    | _ => exact nofun

theorem closes_of_parts (tables : ∀ st ∈ tableDefinitions script, st.Closes)
    (functions : ∀ f ∈ created script, f.Closes) : ∀ st ∈ script, st.Closes := by
  intro st inside
  cases st with
  | createTable name columns => exact tables _ (List.mem_filter.mpr ⟨inside, rfl⟩)
  | createFunction f => exact functions f (List.mem_filterMap.mpr ⟨_, inside, rfl⟩)
  | _ => trivial

/-- What is made behind fragments of a script stands in its text.  These are the fragments behind
which something stands, and it stands outside of comments exactly if none of them ends in one. -/
structure TailsFit (script : List Statement) (fragments : List String) : Prop where
  stands : ∀ t x front, TailAt (segments script) t x front →
    front ++ x.toList <+: (scriptText script).toList
  followed_iff : ∀ t, (∃ x front, TailAt (segments script) t x front) ↔ t ∈ fragments
  unswallowed_iff : Unswallowed (segments script) ↔ ∀ t ∈ fragments, ¬EndsInComment t.toList

theorem exists_tailAt_iff {segs : List Segment} {t : String} :
    (∃ x front, TailAt segs t x front) ↔ ∃ seg ∈ segs, t ∈ followed seg.pieces := by
  constructor
  · rintro ⟨x, front, before, seg, after, a, b, rfl, pieces, -⟩
    exact ⟨seg, by simp, mem_followed_iff.mpr ⟨a, x, b, pieces⟩⟩
  · rintro ⟨seg, inside, found⟩
    obtain ⟨a, x, b, pieces⟩ := mem_followed_iff.mp found
    obtain ⟨before, after, cut⟩ := List.append_of_mem inside
    exact ⟨x, _, before, seg, after, a, b, cut, pieces, rfl⟩

theorem tailsFit_of_forall {fragments : List String} (fine : FineScript script)
    (same : ∀ P : String → Prop,
      (∀ seg ∈ segments script, ∀ t ∈ followed seg.pieces, P t) ↔ ∀ t ∈ fragments, P t) :
    TailsFit script fragments := by
  have fineSegments : ∀ seg ∈ segments script, seg.Fine := by
    intro seg inside
    obtain ⟨st, member, part⟩ := List.mem_flatMap.mp inside
    exact fine st member seg part
  refine ⟨fun t x front tail => ?_, fun t => ?_, (unswallowed_iff fineSegments).trans (same _)⟩
  · rw [← segmentsText_segments]
    exact tail.prefix fineSegments
  · have others := not_congr (same (· ≠ t))
    simpa [exists_tailAt_iff] using others

end Scripts

/-- Among the definitions of tables, only those of item types have fragments. -/
theorem forall_tableDefinitions_iff {script : List Statement} (made : init s = .ok script)
    {Q : Statement → Prop} (configuration : Q .createConfiguration)
    (enums : ∀ e, Q (enumDefinition e)) (keys : ∀ k, Q (.addForeignKey k)) :
    (∀ st ∈ tableDefinitions script, Q st) ↔ ∀ i ∈ s.itemTypes, Q (itemTypeDefinition i) := by
  rw [tableDefinitions_init made, List.forall_mem_cons, List.forall_mem_append,
    List.forall_mem_append, List.forall_mem_map, List.forall_mem_map, List.forall_mem_map]
  exact ⟨fun all => all.2.1.2,
    fun all => ⟨configuration, ⟨fun e _ => enums e, all⟩, fun k _ => keys k⟩⟩

theorem closes_created (valid : s.Valid) (closed : ClosedFragments s) {withDefaultViews : Bool}
    {script : List Statement} (creates : Creates (functions s withDefaultViews) script) :
    ∀ f ∈ created script, f.Closes := by
  rw [creates.created_eq]
  exact List.forall_mem_map.mpr fun d inside =>
    (closes_functions valid closed withDefaultViews d inside).function

theorem forall_created_iff {withDefaultViews : Bool} {script : List Statement}
    (creates : Creates (functions s withDefaultViews) script) {P : String → Prop} :
    (∀ f ∈ created script, ∀ t ∈ f.followedFragments, P t) ↔
      ∀ t ∈ followedInFunctions s, P t := by
  rw [creates.created_eq, List.forall_mem_map]
  constructor
  · intro all t member
    obtain ⟨d, inside, found⟩ := mem_followedInFunctions.mpr member
    exact all d inside t found
  · exact fun all d inside t found => all t (mem_followedInFunctions.mp ⟨d, inside, found⟩)

theorem tailsFit_init (valid : s.Valid) (closed : ClosedFragments s) {script : List Statement}
    (made : init s = .ok script) :
    TailsFit script (followedInTables s ++ followedInFunctions s) := by
  have creates := creates_init made
  have tables : ∀ st ∈ tableDefinitions script, st.Closes := by
    refine (forall_tableDefinitions_iff made trivial (fun _ => trivial) fun _ => trivial).mpr ?_
    exact fun i member => List.forall_mem_map.mpr fun p inside =>
      closes_ofProperty valid closed member inside
  refine tailsFit_of_forall (fineScript_init valid closed made) fun P => ?_
  rw [forall_followed_iff (closes_of_parts tables (closes_created valid closed creates)),
    forall_followedFragments_iff, forall_created_iff creates,
    forall_tableDefinitions_iff made nofun (fun _ => nofun) fun _ => nofun, List.forall_mem_append,
    followedInTables, List.forall_mem_flatMap]
  exact Iff.rfl

theorem tableDefinitions_upgrade {script : List Statement} (made : upgrade s = .ok script) :
    tableDefinitions script = [] := by
  obtain ⟨views, rights, -, -, rfl⟩ := upgrade_eq_ok made
  have guards : tableDefinitions (insertGuards s) = [] := by
    refine List.filter_eq_nil_iff.mpr fun st inside => ?_
    obtain ⟨i, -, found⟩ := List.mem_flatMap.mp inside
    obtain ⟨entry, -, rfl⟩ := List.mem_map.mp found
    exact nofun
  have records : tableDefinitions ((views ++ rights).map .insertRecord) = [] :=
    List.filter_eq_nil_iff.mpr (List.forall_mem_map.mpr fun _ _ => nofun)
  have front : tableDefinitions upgradeFront = [] := by decide
  rw [tableDefinitions_append, tableDefinitions_append, tableDefinitions_append,
    tableDefinitions_append, tableDefinitions_append, front, guards, records,
    tableDefinitions_createFunctions]
  rfl

theorem tailsFit_upgrade (valid : s.Valid) (closed : ClosedFragments s) {script : List Statement}
    (made : upgrade s = .ok script) : TailsFit script (followedInFunctions s) := by
  have creates := creates_upgrade made
  have tables : ∀ st ∈ tableDefinitions script, st.Closes := by
    rw [tableDefinitions_upgrade made]
    exact nofun
  refine tailsFit_of_forall (fineScript_upgrade valid closed made) fun P => ?_
  rw [forall_followed_iff (closes_of_parts tables (closes_created valid closed creates)),
    forall_followedFragments_iff, forall_created_iff creates, tableDefinitions_upgrade made]
  exact and_iff_right nofun

/-- In both scripts for a finished schema with closed fragments, what is made behind a fragment
stands outside of comments exactly if no fragment that something follows ends in one. -/
theorem tailsFit_of_finished (finished : s.Finished) (closed : ∀ t ∈ s.fragments, Closed t.toList) :
    ∃ first next, init s = .ok first ∧ upgrade s = .ok next ∧
      TailsFit first (followedInTables s ++ followedInFunctions s) ∧
        TailsFit next (followedInFunctions s) := by
  obtain ⟨d, sound, complete, rfl⟩ := finished.drafts
  have valid := sound.valid complete
  have fragments := closedFragments_of_forall closed
  obtain ⟨first, made⟩ := succeeds_init valid
  obtain ⟨next, remade⟩ := succeeds_upgrade valid
  exact ⟨first, next, made, remade, tailsFit_init valid fragments made,
    tailsFit_upgrade valid fragments remade⟩

theorem tailsFit_sample : Sample.schema.Finished ∧
    (∀ t ∈ Sample.schema.fragments, Closed t.toList) ∧ ∃ first next,
      init Sample.schema = .ok first ∧ upgrade Sample.schema = .ok next ∧
        TailsFit first (followedInTables Sample.schema ++ followedInFunctions Sample.schema) ∧
          TailsFit next (followedInFunctions Sample.schema) :=
  have closed : ∀ t ∈ Sample.schema.fragments, Closed t.toList := by decide +kernel
  ⟨Sample.schema_finished, closed, tailsFit_of_finished Sample.schema_finished closed⟩

namespace Sample

/-- A file with an expression that ends in a comment. -/
def notedFile : List Char :=
  (Schema.Sample.opening ++
    ["<ItemType Name=", "\"Pet\">", "<Properties>", "<Property Name=\"Key\" ",
      "Type=\"Guid\">", "</Property>", "</Properties>", "</ItemType>", "<ExtendItemType ",
      "Name=\"Pet\">", "<GrantAddRight>", "<Expression>1 -- note</Expression>",
      "</GrantAddRight>", "</ExtendItemType>", "</StoreSchema>"]).flatMap String.toList

def notedProperty : Property :=
  { name := "Key", valueType := .guid, itemTypeName := none, enumName := none
    documentation := {}, inBase := false, owner := "Pet", nullable := false, length := none
    cascadeDelete := false, rowGuid := false, default := none, constraints := [] }

def notedSchema : Schema :=
  ⟨[], [⟨"Pet", [notedProperty], [], ["1 -- note"], [], [], [], [], {}, false⟩], [], [], [], []⟩

theorem notedSchema_finished : notedSchema.Finished :=
  finished_of_schemaOf? notedFile "noted.xml" false
    (schemaOf?_of_spelledOut (by repeat constructor) (by decide +kernel))

end Sample

/-- The parenthesis behind an expression becomes a part of the comment in it. -/
theorem swallowed_sample : Sample.notedSchema.Finished ∧
    (∀ t ∈ Sample.notedSchema.fragments, Closed t.toList ∧ '(' ∉ t.toList ∧ ')' ∉ t.toList) ∧
      ∃ first next, init Sample.notedSchema = .ok first ∧ upgrade Sample.notedSchema = .ok next ∧
        ¬Unswallowed (segments first) ∧ ¬Unswallowed (segments next) ∧
          (∃ f ∈ created next, f ∈ created first ∧ f.body = .granted ["1 -- note"]) ∧
            FunctionBody.union ["1 -- note"] = "RETURN (1 -- note)" ∧
              (SqlMode.code.run "RETURN (1 -- note".toList).inComment = true := by
  obtain ⟨d, sound, complete, same⟩ := Sample.notedSchema_finished.drafts
  have valid : Sample.notedSchema.Valid := same ▸ sound.valid complete
  have closed : ∀ t ∈ Sample.notedSchema.fragments,
      Closed t.toList ∧ '(' ∉ t.toList ∧ ')' ∉ t.toList := by decide +kernel
  have fragments := closedFragments_of_forall fun t inside => (closed t inside).1
  obtain ⟨first, made⟩ := succeeds_init valid
  obtain ⟨next, remade⟩ := succeeds_upgrade valid
  have ends : EndsInComment "1 -- note".toList := by decide
  have followed : "1 -- note" ∈ followedInFunctions Sample.notedSchema := by decide +kernel
  have guard : (⟨"Pet$AddSecurity", [⟨"Key", "uniqueidentifier", none⟩],
      .granted ["1 -- note"]⟩ : SqlFunction) ∈ created next := by
    rw [(creates_upgrade remade).created_eq]
    decide +kernel
  have guardFirst : (⟨"Pet$AddSecurity", [⟨"Key", "uniqueidentifier", none⟩],
      .granted ["1 -- note"]⟩ : SqlFunction) ∈ created first := by
    rw [(creates_init made).created_eq]
    decide +kernel
  refine ⟨Sample.notedSchema_finished, closed, first, next, made, remade, ?_, ?_,
    ⟨_, guard, guardFirst, rfl⟩, by decide, by decide⟩
  · rw [(tailsFit_init valid fragments made).unswallowed_iff]
    exact fun all => all _ (List.mem_append_right _ followed) ends
  · rw [(tailsFit_upgrade valid fragments remade).unswallowed_iff]
    exact fun all => all _ followed ends

end LearningStore.Script
