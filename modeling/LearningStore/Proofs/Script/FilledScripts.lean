import LearningStore.Proofs.Schema.FilledTexts
import LearningStore.Proofs.Script.FragmentTails
import LearningStore.Proofs.Script.ParameterDefaults

/-!
# Places that are left empty

Scripts have fragments of a schema in them as they are.  The fragments of a finished schema all say
something, except that an expression which is the default of a property may be blank.  So no
security function and no view is left without a body, and in either script a default is left empty
exactly if the expression that stands for it is blank.
-/

namespace LearningStore.Value

open LearningStore.Text

theorem solid_of_isConstant {t : String} (constant : isConstant t = true) : Solid t := by
  by_contra blank
  have empty : trim t.toList = [] := by
    rw [trim_eq_nil_iff]
    intro c inside
    by_contra solid
    exact blank ⟨c, inside, Bool.eq_false_iff.mpr solid⟩
  rw [isConstant, empty] at constant
  exact absurd constant (by decide)

end LearningStore.Value

namespace LearningStore.Schema

/-- The defaults of an item type that are expressions. -/
def ItemType.functionDefaults (i : ItemType) : List String :=
  i.properties.flatMap fun p => Script.defaultFragments p.default

/-- The defaults of a schema that are expressions. -/
def functionDefaults (s : Schema) : List String :=
  s.itemTypes.flatMap ItemType.functionDefaults

/-- Those of item types with expressions that grant additions. -/
def guardedDefaults (s : Schema) : List String :=
  s.itemTypes.flatMap fun i => if i.addExpressions.isEmpty then [] else i.functionDefaults

end LearningStore.Schema

namespace LearningStore.Script

open LearningStore.Schema
open LearningStore.Text
open LearningStore.Value

variable {s : Schema}

/-! ## Fragments of statements -/

/-- The fragments in the body of a function. -/
def FunctionBody.fragments : FunctionBody → List String
  | granted expressions => expressions
  | query text => [text]
  | everyRow _ _ => []

/-- The fragments of a function: the expressions that are defaults of parameters, and those of its
body. -/
def SqlFunction.fragments (f : SqlFunction) : List String :=
  f.parameters.flatMap (fun p => defaultFragments p.default) ++ f.body.fragments

/-- The fragments of a statement. -/
def Statement.fragments : Statement → List String
  | snippet text => [text]
  | createTable _ columns => columns.flatMap TableColumn.fragments
  | createFunction f => f.fragments
  | _ => []

/-- The fragments of a script. -/
def fragmentsOf (script : List Statement) : List String :=
  script.flatMap Statement.fragments

section Pieces

variable {t : String}

theorem exists_mem_append {a b : List Segment} :
    (∃ seg ∈ a ++ b, .fragment t ∈ seg.pieces) ↔
      (∃ seg ∈ a, .fragment t ∈ seg.pieces) ∨ ∃ seg ∈ b, .fragment t ∈ seg.pieces := by
  simp only [List.mem_append, or_and_right, exists_or]

theorem fragment_not_mem_ofLines {ls : List Line} :
    ¬∃ seg ∈ ls.map Segment.ofLine, .fragment t ∈ seg.pieces := by
  simp [Segment.ofLine]

theorem fragment_mem_unionPieces {expressions : List String} :
    .fragment t ∈ FunctionBody.unionPieces expressions ↔ t ∈ expressions := by
  cases expressions <;> simp [FunctionBody.unionPieces, FunctionBody.enclosed]

theorem FunctionBody.fragment_mem_segments {body : FunctionBody} :
    (∃ seg ∈ body.segments, .fragment t ∈ seg.pieces) ↔ t ∈ body.fragments := by
  cases body with
  | granted expressions =>
      rw [segments, exists_mem_append, or_iff_right fragment_not_mem_ofLines]
      simp [Segment.ofLine, fragment_mem_unionPieces, fragments]
  | query text =>
      rw [segments, exists_mem_append, or_iff_right fragment_not_mem_ofLines]
      simp [Segment.ofLine, fragments]
  | everyRow columns table => exact iff_of_false fragment_not_mem_ofLines List.not_mem_nil

theorem SqlFunction.fragment_mem_headerPieces {f : SqlFunction} :
    .fragment t ∈ f.headerPieces ↔ ∃ p ∈ f.parameters, t ∈ defaultFragments p.default := by
  have parameter {p : FunctionParameter} : .fragment t ∈ p.pieces ↔
      t ∈ defaultFragments p.default := by
    rw [FunctionParameter.pieces, List.mem_cons, fragment_mem_defaultPieces]
    simp
  simp [headerPieces, parameter]

theorem fragment_mem_commaSegments {pss : List (List Piece)} :
    (∃ seg ∈ commaSegments pss, .fragment t ∈ seg.pieces) ↔ ∃ ps ∈ pss, .fragment t ∈ ps := by
  fun_induction commaSegments pss with
  | case1 => simp
  | case2 last => simp
  | case3 ps rest more ih => simp [ih]

/-- The fragments of a statement are those among its pieces. -/
theorem Statement.mem_fragments_iff {st : Statement} :
    t ∈ st.fragments ↔ ∃ seg ∈ st.segments, .fragment t ∈ seg.pieces := by
  cases st with
  | snippet text => simp [fragments, segments]
  | createTable name columns =>
      rw [segments, exists_mem_append, List.exists_mem_cons_iff, fragment_mem_commaSegments]
      simp [Segment.ofLine, fragments, fragment_mem_pieces]
  | createFunction f =>
      rw [segments, List.exists_mem_cons_iff, SqlFunction.fragment_mem_headerPieces,
        FunctionBody.fragment_mem_segments, fragments, SqlFunction.fragments, List.mem_append,
        List.mem_flatMap]
  | _ => exact iff_of_false List.not_mem_nil fragment_not_mem_ofLines

theorem mem_fragmentsOf_iff {script : List Statement} :
    t ∈ fragmentsOf script ↔ ∃ seg ∈ segments script, .fragment t ∈ seg.pieces := by
  simp only [fragmentsOf, segments, List.mem_flatMap, Statement.mem_fragments_iff]
  constructor
  · rintro ⟨st, inside, seg, part, found⟩
    exact ⟨seg, ⟨st, inside, part⟩, found⟩
  · rintro ⟨seg, ⟨st, inside, part⟩, found⟩
    exact ⟨st, inside, seg, part, found⟩

end Pieces

/-! ## Fragments of scripts -/

section Parts

variable {a b : List Statement}

theorem fragmentsOf_append : fragmentsOf (a ++ b) = fragmentsOf a ++ fragmentsOf b :=
  List.flatMap_append

theorem fragmentsOf_flatMap {α : Type} (xs : List α) (f : α → List Statement) :
    fragmentsOf (xs.flatMap f) = xs.flatMap fun x => fragmentsOf (f x) :=
  List.flatMap_assoc

theorem fragmentsOf_eq_nil (none_spliced : ∀ st ∈ a, st.fragments = []) : fragmentsOf a = [] :=
  List.flatMap_eq_nil_iff.mpr none_spliced

theorem fragmentsOf_snippets (texts : List String) : fragmentsOf (snippets texts) = texts := by
  rw [snippets, fragmentsOf_flatMap]
  exact List.flatMap_singleton' texts

theorem fragmentsOf_enumInserts (e : EnumType) : fragmentsOf (enumInserts e) = [] := by
  unfold enumInserts
  split
  next => rfl
  next =>
    refine fragmentsOf_eq_nil fun st inside => ?_
    rw [List.mem_append, List.mem_cons, List.mem_map, List.mem_singleton] at inside
    rcases inside with (rfl | ⟨row, -, rfl⟩) | rfl <;> rfl

theorem fragmentsOf_enumTable (e : EnumType) : fragmentsOf (enumTable e) = [] := by
  rw [enumTable, fragmentsOf_append, fragmentsOf_append, fragmentsOf_enumInserts]
  rfl

theorem fragmentsOf_constraintsAndIndexes {i : ItemType} {script : List Statement}
    (made : constraintsAndIndexes s i = .ok script) : fragmentsOf script = i.indexes := by
  obtain ⟨keys, found, rfl⟩ := map_eq_ok.mp made
  obtain ⟨lists, -, rfl⟩ := map_eq_ok.mp found
  have keys : fragmentsOf (lists.flatten.flatMap fun k => [.addForeignKey k, .blank]) = [] := by
    rw [fragmentsOf_flatMap]
    exact List.flatMap_eq_nil_iff.mpr fun _ _ => rfl
  rw [fragmentsOf_append, keys, fragmentsOf_snippets, List.nil_append]

theorem fragmentsOf_createFunctions (withDefaultViews : Bool) :
    fragmentsOf (createFunctions s withDefaultViews) =
      (functions s withDefaultViews).flatMap fun d => d.function.fragments := by
  rw [createFunctions, fragmentsOf_flatMap]
  refine List.flatMap_congr fun d _ => ?_
  exact List.append_nil _

end Parts

/-- The fragments of the columns of an item type. -/
def columnFragments (i : ItemType) : List String :=
  i.properties.flatMap fun p => (TableColumn.ofProperty p).fragments

/-- The script that creates a store has in it the fragments of the schema and no other. -/
theorem fragmentsOf_init {script : List Statement} (made : init s = .ok script) :
    fragmentsOf script = s.sqlBefore ++ s.itemTypes.flatMap columnFragments ++
      s.itemTypes.flatMap ItemType.indexes ++
        ((functions s true).flatMap fun d => d.function.fragments) ++
          s.itemTypes.flatMap ItemType.sqlAfter ++ s.sqlAfter := by
  obtain ⟨document, constraints, -, constrained, rfl⟩ := init_eq_ok made
  have front : fragmentsOf (initFront s) = s.sqlBefore := by
    rw [initFront, fragmentsOf_append, fragmentsOf_append, fragmentsOf_snippets]
    exact List.append_nil _
  have enums : fragmentsOf (s.enums.flatMap enumTable) = [] := by
    rw [fragmentsOf_flatMap]
    exact List.flatMap_eq_nil_iff.mpr fun e _ => fragmentsOf_enumTable e
  have tables : fragmentsOf (s.itemTypes.flatMap itemTypeTable) =
      s.itemTypes.flatMap columnFragments := by
    rw [fragmentsOf_flatMap]
    refine List.flatMap_congr fun i _ => ?_
    exact (List.append_nil _).trans (List.flatMap_map _ _ _)
  have indexes : fragmentsOf constraints.flatten = s.itemTypes.flatMap ItemType.indexes := by
    rw [← List.flatMap_id, fragmentsOf_flatMap]
    exact flatMap_eq_of_mapM constrained fun i _ part made =>
      fragmentsOf_constraintsAndIndexes made
  have middle : fragmentsOf (initMiddle s constraints) =
      s.itemTypes.flatMap columnFragments ++ s.itemTypes.flatMap ItemType.indexes := by
    simp only [initMiddle, fragmentsOf_append, enums, tables, indexes]
    simp [fragmentsOf, createRole, closeBatch, Statement.fragments]
  have back : fragmentsOf (initBack s) = s.itemTypes.flatMap ItemType.sqlAfter ++ s.sqlAfter := by
    rw [initBack, fragmentsOf_append, fragmentsOf_append, fragmentsOf_snippets,
      fragmentsOf_snippets]
    exact List.append_nil _
  have document : fragmentsOf (.setDocument document :: initMiddle s constraints) =
      fragmentsOf (initMiddle s constraints) := rfl
  rw [fragmentsOf_append, fragmentsOf_append, fragmentsOf_append, front, document, middle, back,
    fragmentsOf_createFunctions]
  simp only [List.append_assoc]

/-- The script that upgrades a store has in it the fragments of the functions that it creates. -/
theorem fragmentsOf_upgrade {script : List Statement} (made : upgrade s = .ok script) :
    fragmentsOf script = (functions s false).flatMap fun d => d.function.fragments := by
  obtain ⟨views, rights, -, -, rfl⟩ := upgrade_eq_ok made
  have guards : fragmentsOf (insertGuards s) = [] := by
    refine fragmentsOf_eq_nil fun st inside => ?_
    obtain ⟨i, -, found⟩ := List.mem_flatMap.mp inside
    obtain ⟨entry, -, rfl⟩ := List.mem_map.mp found
    rfl
  have records : fragmentsOf ((views ++ rights).map .insertRecord) = [] :=
    fragmentsOf_eq_nil (List.forall_mem_map.mpr fun _ _ => rfl)
  have front : fragmentsOf upgradeFront = [] := fragmentsOf_eq_nil (by decide)
  have closing : fragmentsOf closeBatch = [] := rfl
  have committed : fragmentsOf commit = [] := rfl
  rw [fragmentsOf_append, fragmentsOf_append, fragmentsOf_append, fragmentsOf_append,
    fragmentsOf_append, front, guards, records, closing, committed, fragmentsOf_createFunctions,
    List.append_nil]
  rfl

/-! ## Solid fragments -/

/-- The body of a function that returns something. -/
def FunctionBody.Filled : FunctionBody → Prop
  | granted expressions => expressions ≠ [] ∧ ∀ t ∈ expressions, Solid t
  | query text => Solid text
  | everyRow _ _ => True

/-- Every fragment of a filled schema says something, unless it is a default. -/
theorem forall_fragments_iff (filled : s.Filled) :
    (∀ t ∈ s.fragments, Solid t) ↔ ∀ t ∈ s.functionDefaults, Solid t := by
  have property {i : ItemType} (member : i ∈ s.itemTypes) {p : Property}
      (inside : p ∈ i.properties) :
      (∀ t ∈ p.fragments, Solid t) ↔ ∀ t ∈ defaultFragments p.default, Solid t :=
    List.forall_mem_append.trans
      (and_iff_right (((filled.itemTypes i member).properties p inside).constraints))
  simp only [Schema.fragments, ItemType.fragments, functionDefaults, ItemType.functionDefaults,
    List.forall_mem_append, List.forall_mem_flatMap]
  constructor
  · rintro ⟨⟨⟨⟨-, itemTypes⟩, -⟩, -⟩, -⟩ i member p inside
    exact (property member inside).mp ((itemTypes i member).1.1.2 p inside)
  · intro defaults
    refine ⟨⟨⟨⟨filled.sqlBefore, fun i member => ?_⟩, fun v member => ?_⟩, filled.rights⟩,
      filled.sqlAfter⟩
    · have own := filled.itemTypes i member
      exact ⟨⟨⟨fun right _ => own.expressions right, fun p inside =>
        (property member inside).mpr (defaults i member p inside)⟩, own.indexes⟩, own.sqlAfter⟩
    · have own := filled.views v member
      exact List.forall_mem_cons.mpr ⟨own.implementation, own.expressions⟩

theorem mem_defaultFragments_iff {default : Option DefaultValue} {t : String} :
    t ∈ defaultFragments default ↔ default = some (.function t) := by
  cases default with
  | none => exact ⟨nofun, nofun⟩
  | some d => cases d <;> simp [defaultFragments, eq_comm]

/-- A default that is an expression is not empty. -/
theorem ne_empty_of_mem_functionDefaults (filled : s.Filled) {t : String}
    (member : t ∈ s.functionDefaults) : t ≠ "" := by
  obtain ⟨i, known, listed⟩ := List.mem_flatMap.mp member
  obtain ⟨p, inside, shown⟩ := List.mem_flatMap.mp listed
  have given := mem_defaultFragments_iff.mp shown
  exact ((filled.itemTypes i known).properties p inside).default t given

/-- The columns of an item type say something exactly if its defaults do. -/
theorem forall_columnFragments_iff {i : ItemType} (filled : i.Filled) :
    (∀ t ∈ columnFragments i, Solid t) ↔ ∀ t ∈ i.functionDefaults, Solid t := by
  simp only [columnFragments, ItemType.functionDefaults, List.forall_mem_flatMap]
  refine forall₂_congr fun p inside => List.forall_mem_append.trans (and_iff_left ?_)
  refine List.forall_mem_map.mpr fun t constraint => solid_trimmed_iff.mpr ?_
  exact (filled.properties p inside).constraints t constraint

section Functions

variable {withDefaultViews : Bool}

theorem filled_guard {expressions : List String} {function purpose : String}
    {parameters : List FunctionParameter} (solid : ∀ t ∈ expressions, Solid t) :
    ∀ d ∈ ((if expressions.isEmpty then none else some function).toList.map fun name =>
      (⟨purpose, ⟨name, parameters, .granted expressions⟩⟩ : Described)),
        d.function.body.Filled := by
  split
  next => exact List.forall_mem_nil _
  next some => exact List.forall_mem_singleton.mpr ⟨mt List.isEmpty_iff.mpr some, solid⟩

/-- No function of a filled schema is left without a body. -/
theorem filled_functions (filled : s.Filled) :
    ∀ d ∈ functions s withDefaultViews, d.function.body.Filled := by
  intro d inside
  obtain ⟨x, slot, found⟩ := List.mem_flatMap.mp (functions_perm.mem_iff.mp inside)
  rcases mem_slots_iff.mp slot with ⟨i, member, rfl | ⟨right, rfl⟩⟩ | ⟨v, member, rfl | rfl⟩ |
    ⟨r, member, rfl⟩
  · cases withDefaultViews with
    | false => cases found
    | true =>
        obtain rfl := List.mem_singleton.mp found
        exact trivial
  · exact filled_guard ((filled.itemTypes i member).expressions right) d found
  · obtain rfl := List.mem_singleton.mp found
    exact (filled.views v member).implementation
  · exact filled_guard (filled.views v member).expressions d found
  · exact filled_guard (filled.rights r member) d found

theorem FunctionBody.Filled.solid {body : FunctionBody} (filled : body.Filled) :
    ∀ t ∈ body.fragments, Solid t := by
  cases body with
  | granted expressions => exact filled.2
  | query text => exact List.forall_mem_singleton.mpr filled
  | everyRow columns table => exact List.forall_mem_nil _

/-- The headers of functions have in them, besides null, the defaults of item types with expressions
that grant additions. -/
theorem exists_parameterDefault_iff (withDefaultViews : Bool) {default : DefaultValue}
    (value : default ≠ .null) :
    (∃ d ∈ functions s withDefaultViews, ∃ p ∈ d.function.parameters, p.default = some default) ↔
      ∃ i ∈ s.itemTypes, i.addExpressions.isEmpty = false ∧
        ∃ p ∈ i.properties, p.default = some default := by
  constructor
  · rintro ⟨d, inside, p, member, given⟩
    rcases default_of_mem inside member given with null | ⟨i, known, guarded, declared⟩
    · exact absurd null value
    · obtain ⟨granted, -⟩ := Option.ite_none_left_eq_some.mp guarded
      exact ⟨i, known, Bool.eq_false_iff.mpr granted, declared⟩
  · rintro ⟨i, known, granted, p, property, given⟩
    have slot : itemRightSlot i .add ∈ slots s withDefaultViews :=
      mem_slots_iff.mpr (.inl ⟨i, known, .inr ⟨.add, rfl⟩⟩)
    have guarded : i.securityFunction? .add = some (i.name ++ ItemRight.functionSuffix .add) :=
      if_neg (Bool.eq_false_iff.mp granted)
    have member := List.mem_map_of_mem (f := fun name => (⟨itemRightPurpose i .add,
      ⟨name, itemRightParameters i .add, .granted (i.expressions .add)⟩⟩ : Described))
      (Option.mem_toList.mpr guarded)
    exact ⟨_, (mem_functions_of_slot slot member).1, _, List.mem_map_of_mem property, given⟩

theorem mem_parameterDefaults_iff (withDefaultViews : Bool) {t : String} :
    (∃ d ∈ functions s withDefaultViews, ∃ p ∈ d.function.parameters,
      t ∈ defaultFragments p.default) ↔ t ∈ s.guardedDefaults := by
  have value : DefaultValue.function t ≠ .null := nofun
  simp only [mem_defaultFragments_iff, exists_parameterDefault_iff withDefaultViews value,
    guardedDefaults, List.mem_flatMap, ItemType.functionDefaults]
  refine exists_congr fun i => and_congr_right fun _ => ?_
  cases i.addExpressions.isEmpty with
  | true => exact iff_of_false (fun given => nomatch given.1) List.not_mem_nil
  | false => simp only [true_and, Bool.false_eq_true, if_false, List.mem_flatMap,
      mem_defaultFragments_iff]

theorem forall_functionFragments_iff (filled : s.Filled) :
    (∀ t ∈ (functions s withDefaultViews).flatMap fun d => d.function.fragments, Solid t) ↔
      ∀ t ∈ s.guardedDefaults, Solid t := by
  simp only [← mem_parameterDefaults_iff withDefaultViews,
    List.forall_mem_flatMap, SqlFunction.fragments, List.forall_mem_append]
  constructor
  · rintro all t ⟨d, inside, p, member, shown⟩
    exact (all d inside).1 p member t shown
  · intro all d inside
    exact ⟨fun p member t shown => all t ⟨d, inside, p, member, shown⟩,
      (filled_functions filled d inside).solid⟩

end Functions

/-! ## Defaults in scripts -/

/-- The defaults that a statement gives columns or parameters. -/
def Statement.defaults : Statement → List DefaultValue
  | createTable _ columns => columns.flatMap fun c => c.default.toList
  | createFunction f => f.parameters.flatMap fun p => p.default.toList
  | _ => []

/-- The defaults in a script. -/
def defaultsOf (script : List Statement) : List DefaultValue :=
  script.flatMap Statement.defaults

/-- Null and the literals are never written as nothing. -/
theorem solid_sqlConstant_iff {d : DefaultValue} :
    Solid d.sqlConstant ↔ ∀ t, d = .function t → Solid t := by
  constructor
  · rintro solid t rfl
    exact solid
  · intro each
    cases d with
    | null => exact solid_of_isConstant (by decide)
    | function expression => exact each expression rfl
    | literal l => exact solid_of_isConstant (isConstant_literal l)

theorem mem_fragments_of_mem_defaults {st : Statement} {t : String}
    (member : .function t ∈ st.defaults) : t ∈ st.fragments := by
  cases st with
  | createTable name columns =>
      obtain ⟨c, inside, given⟩ := List.mem_flatMap.mp member
      have shown := mem_defaultFragments_iff.mpr (Option.mem_toList.mp given)
      exact List.mem_flatMap.mpr ⟨c, inside, List.mem_append_left _ shown⟩
  | createFunction f =>
      obtain ⟨p, inside, given⟩ := List.mem_flatMap.mp member
      have shown := mem_defaultFragments_iff.mpr (Option.mem_toList.mp given)
      exact List.mem_append_left _ (List.mem_flatMap.mpr ⟨p, inside, shown⟩)
  | _ => cases member

theorem mem_fragmentsOf_of_mem_defaultsOf {script : List Statement} {t : String}
    (member : .function t ∈ defaultsOf script) : t ∈ fragmentsOf script := by
  obtain ⟨st, inside, given⟩ := List.mem_flatMap.mp member
  exact List.mem_flatMap.mpr ⟨st, inside, mem_fragments_of_mem_defaults given⟩

theorem mem_defaultsOf_of_property {script : List Statement} (made : init s = .ok script)
    {i : ItemType} (known : i ∈ s.itemTypes) {p : Property} (property : p ∈ i.properties)
    {d : DefaultValue} (given : p.default = some d) : d ∈ defaultsOf script := by
  have table : itemTypeDefinition i ∈ tableDefinitions script := by
    rw [tableDefinitions_init made]
    exact List.mem_cons_of_mem _ (List.mem_append_left _
      (List.mem_append_right _ (List.mem_map_of_mem known)))
  exact List.mem_flatMap.mpr ⟨_, List.mem_of_mem_filter table, List.mem_flatMap.mpr
    ⟨_, List.mem_map_of_mem property, Option.mem_toList.mpr given⟩⟩

theorem mem_defaultsOf_of_itemType {script : List Statement} (made : init s = .ok script)
    {t : String} (member : t ∈ s.functionDefaults) : .function t ∈ defaultsOf script := by
  obtain ⟨i, known, listed⟩ := List.mem_flatMap.mp member
  obtain ⟨p, property, shown⟩ := List.mem_flatMap.mp listed
  exact mem_defaultsOf_of_property made known property (mem_defaultFragments_iff.mp shown)

theorem mem_defaultsOf_of_created {script : List Statement} {f : SqlFunction}
    (listed : f ∈ created script) {p : FunctionParameter} (parameter : p ∈ f.parameters)
    {d : DefaultValue} (given : p.default = some d) : d ∈ defaultsOf script := by
  obtain ⟨st, stands, same⟩ := List.mem_filterMap.mp listed
  cases st with
  | createFunction f =>
      cases same
      exact List.mem_flatMap.mpr ⟨_, stands, List.mem_flatMap.mpr
        ⟨p, parameter, Option.mem_toList.mpr given⟩⟩
  | _ => cases same

theorem mem_defaultsOf_of_function {withDefaultViews : Bool} {script : List Statement}
    (creates : Creates (functions s withDefaultViews) script) {t : String}
    (member : t ∈ s.guardedDefaults) : .function t ∈ defaultsOf script := by
  obtain ⟨d, inside, p, parameter, shown⟩ :=
    (mem_parameterDefaults_iff withDefaultViews).mpr member
  have listed : d.function ∈ created script := by
    rw [creates.created_eq]
    exact List.mem_map_of_mem inside
  exact mem_defaultsOf_of_created listed parameter (mem_defaultFragments_iff.mp shown)

/-- What a script leaves empty.  All functions have a body.  The fragments among the pieces that the
script is written in, and the defaults of columns and parameters, say something exactly if the
defaults that are expressions do. -/
structure FilledScript (script : List Statement) (defaults : List String) : Prop where
  text : (scriptText script).toList = segmentsText (segments script)
  stands : ∀ t, t ∈ fragmentsOf script ↔ ∃ seg ∈ segments script, .fragment t ∈ seg.pieces
  bodies : ∀ f ∈ created script, f.body.Filled
  fragments_iff : (∀ t ∈ fragmentsOf script, Solid t) ↔ ∀ t ∈ defaults, Solid t
  defaults_iff : (∀ d ∈ defaultsOf script, Solid d.sqlConstant) ↔ ∀ t ∈ defaults, Solid t

theorem filledScript_of_fragments {withDefaultViews : Bool} {script : List Statement}
    {defaults : List String} (filled : s.Filled)
    (creates : Creates (functions s withDefaultViews) script)
    (fragments : (∀ t ∈ fragmentsOf script, Solid t) ↔ ∀ t ∈ defaults, Solid t)
    (stand : ∀ t ∈ defaults, .function t ∈ defaultsOf script) : FilledScript script defaults := by
  refine ⟨(segmentsText_segments script).symm, fun _ => mem_fragmentsOf_iff, ?_, fragments, ?_⟩
  · rw [creates.created_eq]
    exact List.forall_mem_map.mpr (filled_functions filled)
  · constructor
    · exact fun all t member => all _ (stand t member)
    · intro all d member
      refine solid_sqlConstant_iff.mpr fun t same => fragments.mpr all t ?_
      exact mem_fragmentsOf_of_mem_defaultsOf (same ▸ member)

theorem filledScript_init (filled : s.Filled) {script : List Statement}
    (made : init s = .ok script) : FilledScript script s.functionDefaults := by
  have guarded : ∀ t ∈ s.guardedDefaults, t ∈ s.functionDefaults := by
    intro t member
    obtain ⟨i, known, listed⟩ := List.mem_flatMap.mp member
    split at listed
    next => cases listed
    next => exact List.mem_flatMap.mpr ⟨i, known, listed⟩
  have columns : (∀ t ∈ s.itemTypes.flatMap columnFragments, Solid t) ↔
      ∀ t ∈ s.functionDefaults, Solid t := by
    simp only [functionDefaults, List.forall_mem_flatMap (f := columnFragments),
      List.forall_mem_flatMap (f := ItemType.functionDefaults)]
    exact forall₂_congr fun i known => forall_columnFragments_iff (filled.itemTypes i known)
  refine filledScript_of_fragments filled (creates_init made) ?_
    fun t member => mem_defaultsOf_of_itemType made member
  rw [fragmentsOf_init made]
  simp only [List.forall_mem_append, columns, forall_functionFragments_iff filled]
  constructor
  · exact fun all => all.1.1.1.1.2
  · intro all
    have indexes := List.forall_mem_flatMap.mpr fun i known => (filled.itemTypes i known).indexes
    have after := List.forall_mem_flatMap.mpr fun i known => (filled.itemTypes i known).sqlAfter
    exact ⟨⟨⟨⟨⟨filled.sqlBefore, all⟩, indexes⟩, fun t member => all t (guarded t member)⟩,
      after⟩, filled.sqlAfter⟩

theorem filledScript_upgrade (filled : s.Filled) {script : List Statement}
    (made : upgrade s = .ok script) : FilledScript script s.guardedDefaults := by
  refine filledScript_of_fragments filled (creates_upgrade made) ?_
    fun t member => mem_defaultsOf_of_function (creates_upgrade made) member
  rw [fragmentsOf_upgrade made]
  exact forall_functionFragments_iff filled

/-- The fragments of a finished schema say something but for defaults that are blank expressions,
which are not empty.  No function in the scripts for it is left without a body, and no fragment of
the script that creates a store is blank, nor any default in it, exactly if no such expression is.
For the script that upgrades a store those expressions count that reach the header of a function. -/
theorem filled_of_finished (finished : s.Finished) :
    ((∀ t ∈ s.fragments, Solid t) ↔ ∀ t ∈ s.functionDefaults, Solid t) ∧
      (∀ t ∈ s.functionDefaults, t ≠ "") ∧
        ∃ first next, init s = .ok first ∧ upgrade s = .ok next ∧
          FilledScript first s.functionDefaults ∧ FilledScript next s.guardedDefaults := by
  have filled := finished.filled
  obtain ⟨d, sound, complete, rfl⟩ := finished.drafts
  have valid := sound.valid complete
  obtain ⟨first, made⟩ := succeeds_init valid
  obtain ⟨next, remade⟩ := succeeds_upgrade valid
  exact ⟨forall_fragments_iff filled, fun t => ne_empty_of_mem_functionDefaults filled,
    first, next, made, remade, filledScript_init filled made, filledScript_upgrade filled remade⟩

theorem filled_sample : Sample.schema.Finished ∧
    ((∀ t ∈ Sample.schema.fragments, Solid t) ↔ ∀ t ∈ Sample.schema.functionDefaults, Solid t) ∧
      (∀ t ∈ Sample.schema.functionDefaults, t ≠ "") ∧
        ∃ first next, init Sample.schema = .ok first ∧ upgrade Sample.schema = .ok next ∧
          FilledScript first Sample.schema.functionDefaults ∧
            FilledScript next Sample.schema.guardedDefaults :=
  ⟨Sample.schema_finished, filled_of_finished Sample.schema_finished⟩

namespace Sample

/-- A file with a blank expression as a default. -/
def blankFile : List Char :=
  (Schema.Sample.opening ++
    ["<ItemType Name=", "\"Pet\">", "<Properties>", "<Property Name=\"Key\" ",
      "Type=\"Guid\">", "<Default IsFunction=", "\"true\"> </Default>", "</Property>",
      "</Properties>", "</ItemType>", "<ExtendItemType ", "Name=\"Pet\">", "<GrantAddRight>",
      "<Expression>1</Expression>", "</GrantAddRight>", "</ExtendItemType>",
      "</StoreSchema>"]).flatMap String.toList

def blankProperty : Property :=
  { name := "Key", valueType := .guid, itemTypeName := none, enumName := none
    documentation := {}, inBase := false, owner := "Pet", nullable := false, length := none
    cascadeDelete := false, rowGuid := false, default := some (.function " "), constraints := [] }

def blankSchema : Schema :=
  ⟨[], [⟨"Pet", [blankProperty], [], ["1"], [], [], [], [], {}, false⟩], [], [], [], []⟩

theorem blankSchema_finished : blankSchema.Finished :=
  finished_of_schemaOf? blankFile "blank.xml" false
    (schemaOf?_of_spelledOut (by repeat constructor) (by decide +kernel))

end Sample

/-- A blank expression is accepted as a default, and nothing stands behind the words and the sign
that introduce it. -/
theorem blank_sample : Sample.blankSchema.Finished ∧ " " ∈ Sample.blankSchema.fragments ∧
    ¬Solid " " ∧ ∃ first next, init Sample.blankSchema = .ok first ∧
      upgrade Sample.blankSchema = .ok next ∧ " " ∈ fragmentsOf first ∧ " " ∈ fragmentsOf next ∧
        .function " " ∈ defaultsOf first ∧ .function " " ∈ defaultsOf next ∧
          (TableColumn.ofProperty Sample.blankProperty).definition =
            "[Key] uniqueidentifier NOT NULL DEFAULT  " := by
  obtain ⟨d, sound, complete, same⟩ := Sample.blankSchema_finished.drafts
  have valid : Sample.blankSchema.Valid := same ▸ sound.valid complete
  obtain ⟨first, made⟩ := succeeds_init valid
  obtain ⟨next, remade⟩ := succeeds_upgrade valid
  have column : .function " " ∈ defaultsOf first :=
    mem_defaultsOf_of_itemType made (by decide +kernel)
  have parameter : .function " " ∈ defaultsOf next :=
    mem_defaultsOf_of_function (creates_upgrade remade) (by decide +kernel)
  exact ⟨Sample.blankSchema_finished, by decide +kernel, by decide, first, next, made, remade,
    mem_fragmentsOf_of_mem_defaultsOf column, mem_fragmentsOf_of_mem_defaultsOf parameter, column,
    parameter, by decide +kernel⟩

end LearningStore.Script
