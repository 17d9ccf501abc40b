import LearningStore.Proofs.Script.Creation

/-!
# What statements rely on

A grant relies on the role and on the object that it names, a row on its table, and a key on the
table that has it and on the one that it leads to.  In the script that creates a store, earlier
statements provide for all of that.
-/

namespace LearningStore.Script

open LearningStore.Schema

/-! ## Needs -/

/-- What a statement can rely on. -/
inductive Need where
  | role
  | object (name : String)
  | table (name : String)
deriving DecidableEq, Repr

namespace Statement

def needs : Statement → List Need
  | grantConfiguration => [.role, .object "Configuration"]
  | grant _ object => [.role, .object object]
  | insertConfiguration => [.table "Configuration"]
  | identityInsert table _ | insertRow table _ _ => [.table table]
  | addForeignKey k => [.table k.table, .table k.target]
  | _ => []

def provides : Statement → List Need
  | createRole => [.role]
  | createConfiguration => [.object "Configuration", .table "Configuration"]
  | createEnumTable name | createTable name _ => [.object name, .table name]
  | createFunction f => [.object f.name]
  | _ => []

end Statement

/-- All that the statements of a script provide. -/
def provided (script : List Statement) : List Need :=
  script.flatMap Statement.provides

/-- A script whose statements rely on what is there before it, or on what its earlier statements
provide. -/
def FoundedOn (known : List Need) (script : List Statement) : Prop :=
  ∀ front st back, script = front ++ st :: back → ∀ need ∈ st.needs, need ∈ known ++ provided front

section Founded

variable {known : List Need} {script a b rest : List Statement} {st : Statement}

theorem mem_provided {need : Need} :
    need ∈ provided script ↔ ∃ st ∈ script, need ∈ st.provides :=
  List.mem_flatMap

theorem provided_cons (st : Statement) (rest : List Statement) :
    provided (st :: rest) = st.provides ++ provided rest :=
  List.flatMap_cons

theorem foundedOn_nil : FoundedOn known [] :=
  fun front _ _ cut => absurd cut (by simp)

/-- The first statement relies on what is there, and the others on what it provides as well. -/
theorem foundedOn_cons : FoundedOn known (st :: rest) ↔
    (∀ need ∈ st.needs, need ∈ known) ∧ FoundedOn (known ++ st.provides) rest := by
  constructor
  · intro founded
    refine ⟨fun need needed => ?_, fun front next back cut need needed => ?_⟩
    · have here := founded [] st rest rfl need needed
      rwa [provided, List.flatMap_nil, List.append_nil] at here
    · have later := founded (st :: front) next back (by rw [cut]; rfl) need needed
      rwa [provided_cons, ← List.append_assoc] at later
  · rintro ⟨here, later⟩ front next back cut need needed
    cases front with
    | nil =>
        obtain ⟨rfl, -⟩ := List.cons.inj cut
        exact List.mem_append_left _ (here need needed)
    | cons first front =>
        obtain ⟨rfl, others⟩ := List.cons.inj cut
        rw [provided_cons, ← List.append_assoc]
        exact later front next back others need needed

theorem foundedOn_append : FoundedOn known (a ++ b) ↔
    FoundedOn known a ∧ FoundedOn (known ++ provided a) b := by
  induction a generalizing known with
  | nil =>
      rw [provided, List.flatMap_nil, List.append_nil]
      exact ⟨fun founded => ⟨foundedOn_nil, founded⟩, And.right⟩
  | cons st rest ih =>
      rw [List.cons_append, foundedOn_cons, foundedOn_cons, ih, and_assoc, provided_cons,
        List.append_assoc]

theorem FoundedOn.mono {more : List Need} (founded : FoundedOn known script)
    (subset : known ⊆ more) : FoundedOn more script := by
  intro front st back cut need needed
  rcases List.mem_append.mp (founded front st back cut need needed) with before | here
  · exact List.mem_append_left _ (subset before)
  · exact List.mem_append_right _ here

theorem foundedOn_of_known (all : ∀ st ∈ script, ∀ need ∈ st.needs, need ∈ known) :
    FoundedOn known script := by
  rintro front st back rfl need needed
  exact List.mem_append_left _
    (all st (List.mem_append_right front List.mem_cons_self) need needed)

theorem foundedOn_flatMap {α : Type} {xs : List α} {f : α → List Statement}
    (each : ∀ x ∈ xs, FoundedOn known (f x)) : FoundedOn known (xs.flatMap f) := by
  induction xs generalizing known with
  | nil => exact foundedOn_nil
  | cons x rest ih =>
      obtain ⟨here, others⟩ := List.forall_mem_cons.mp each
      rw [List.flatMap_cons, foundedOn_append]
      exact ⟨here, ih fun y inside => (others y inside).mono (List.subset_append_left known _)⟩

end Founded

/-! ## The script that creates a store -/

section Init

variable {s : Schema} {known : List Need}

theorem needs_snippets {texts : List String} {st : Statement} (inside : st ∈ snippets texts) :
    st.needs = [] := by
  obtain ⟨text, -, found⟩ := List.mem_flatMap.mp inside
  rcases List.mem_pair.mp found with rfl | rfl <;> rfl

theorem needs_initFront {st : Statement} (inside : st ∈ initFront s) : st.needs = [] := by
  simp only [initFront, List.mem_append] at inside
  rcases inside with (((header | guard) | settings) | snippet) | created
  · exact (by decide : ∀ st ∈ Script.header, st.needs = []) st header
  · exact (by decide : ∀ st ∈ guardMaster, st.needs = []) st guard
  · exact (by decide : ∀ st ∈ sessionSettings, st.needs = []) st settings
  · exact needs_snippets snippet
  · rcases List.mem_pair.mp created with rfl | rfl <;> rfl

theorem needs_initBack {st : Statement} (inside : st ∈ initBack s) : st.needs = [] := by
  simp only [initBack, List.mem_append] at inside
  rcases inside with (itemTypes | schema) | commit
  · exact needs_snippets itemTypes
  · exact needs_snippets schema
  · exact (by decide : ∀ st ∈ Script.commit, st.needs = []) st commit

theorem foundedOn_of_needless {script : List Statement}
    (none_needed : ∀ st ∈ script, st.needs = []) : FoundedOn known script :=
  foundedOn_of_known fun st inside need needed => by
    rw [none_needed st inside] at needed
    cases needed

theorem needs_enumInserts {e : EnumType} {st : Statement} (inside : st ∈ enumInserts e) :
    st.needs = [.table e.name] := by
  unfold enumInserts at inside
  split at inside
  next => cases inside
  next =>
    rw [List.mem_append, List.mem_cons, List.mem_map, List.mem_singleton] at inside
    rcases inside with (rfl | ⟨row, -, rfl⟩) | rfl <;> rfl

theorem foundedOn_enumTable (role : .role ∈ known) (e : EnumType) :
    FoundedOn known (enumTable e) := by
  refine foundedOn_append.mpr ⟨foundedOn_append.mpr ⟨?_, foundedOn_of_known ?_⟩,
    foundedOn_of_needless (by simp [Statement.needs])⟩
  · simp [foundedOn_cons, foundedOn_nil, Statement.needs, Statement.provides, role]
  · intro st inside need needed
    rw [needs_enumInserts inside, List.mem_singleton] at needed
    rw [needed]
    simp [provided, Statement.provides]

theorem foundedOn_itemTypeTable (role : .role ∈ known) (i : ItemType) :
    FoundedOn known (itemTypeTable i) := by
  simp [itemTypeTable, foundedOn_cons, foundedOn_nil, Statement.needs, Statement.provides, role]

/-- A key of an item type, which leads from one of its properties to a table of the schema. -/
structure ForeignKey.Leads (s : Schema) (i : ItemType) (k : ForeignKey) : Prop where
  table : k.table = i.name
  column : ∃ p ∈ i.properties, k.column = p.name
  target : (∃ t ∈ s.itemTypes, k.target = t.name) ∨ ∃ e ∈ s.enums, k.target = e.name

theorem constraintsAndIndexes_eq_ok {i : ItemType} {script : List Statement}
    (made : constraintsAndIndexes s i = .ok script) : ∃ keys : List ForeignKey,
      script = keys.flatMap (fun k => [.addForeignKey k, .blank]) ++ snippets i.indexes ∧
        ∀ k ∈ keys, k.Leads s i := by
  obtain ⟨commands, found, rfl⟩ := map_eq_ok.mp made
  obtain ⟨lists, each, rfl⟩ := map_eq_ok.mp found
  refine ⟨lists.flatten, rfl, fun k inside => ?_⟩
  obtain ⟨list, listMember, keyMember⟩ := List.mem_flatten.mp inside
  obtain ⟨p, property, ofProperty⟩ := (mem_of_mapM each).mp listMember
  unfold ForeignKey.ofProperty at ofProperty
  split at ofProperty
  next =>
    obtain ⟨target, referred, rfl⟩ := map_eq_ok.mp ofProperty
    obtain rfl := List.mem_singleton.mp keyMember
    exact ⟨rfl, ⟨p, property, rfl⟩, .inl ⟨target, (mem_of_referencedItemType referred).1, rfl⟩⟩
  next =>
    obtain ⟨target, referred, rfl⟩ := map_eq_ok.mp ofProperty
    obtain rfl := List.mem_singleton.mp keyMember
    exact ⟨rfl, ⟨p, property, rfl⟩, .inr ⟨target, (mem_of_referencedEnum referred).1, rfl⟩⟩
  next =>
    cases ofProperty
    cases keyMember

/-- The keys of an item type are between tables of the schema. -/
theorem foundedOn_constraintsAndIndexes {i : ItemType} {script : List Statement}
    (member : i ∈ s.itemTypes) (made : constraintsAndIndexes s i = .ok script)
    (enums : ∀ e ∈ s.enums, .table e.name ∈ known)
    (itemTypes : ∀ i ∈ s.itemTypes, .table i.name ∈ known) : FoundedOn known script := by
  obtain ⟨keys, rfl, leads⟩ := constraintsAndIndexes_eq_ok made
  refine foundedOn_append.mpr ⟨?_, foundedOn_of_needless fun _ => needs_snippets⟩
  refine foundedOn_flatMap fun k inside => foundedOn_cons.mpr ⟨?_, foundedOn_of_needless ?_⟩
  · intro need needed
    rcases List.mem_pair.mp needed with rfl | rfl
    · rw [(leads k inside).table]
      exact itemTypes i member
    · rcases (leads k inside).target with ⟨target, there, same⟩ | ⟨target, there, same⟩
      · rw [same]
        exact itemTypes target there
      · rw [same]
        exact enums target there
  · exact List.forall_mem_singleton.mpr rfl

theorem foundedOn_createFunction (role : .role ∈ known) (d : Described) :
    FoundedOn known (createFunction d) := by
  simp [createFunction, foundedOn_cons, foundedOn_nil, Statement.needs, Statement.provides, role]

/-- The statements between the stored document and the functions. -/
theorem foundedOn_initMiddle {constraints : List (List Statement)}
    (made : s.itemTypes.mapM (constraintsAndIndexes s) = .ok constraints)
    (object : .object "Configuration" ∈ known) (table : .table "Configuration" ∈ known) :
    FoundedOn known (initMiddle s constraints) := by
  have grants : FoundedOn known ([.insertConfiguration, .blank] ++ createRole) := by
    simp [createRole, foundedOn_cons, foundedOn_nil, Statement.needs, Statement.provides, object,
      table]
  have role {more : List Statement} (inside : .createRole ∈ more) :
      .role ∈ known ++ provided more :=
    List.mem_append_right known (mem_provided.mpr ⟨_, inside, List.mem_cons_self⟩)
  have enumTables {more : List Statement} (inside : s.enums.flatMap enumTable ⊆ more)
      (e : EnumType) (member : e ∈ s.enums) : .table e.name ∈ known ++ provided more := by
    have created : .createEnumTable e.name ∈ more :=
      inside (List.mem_flatMap.mpr ⟨e, member, by simp [enumTable]⟩)
    exact List.mem_append_right known (mem_provided.mpr ⟨_, created, by simp [Statement.provides]⟩)
  have itemTypeTables {more : List Statement} (inside : s.itemTypes.flatMap itemTypeTable ⊆ more)
      (i : ItemType) (member : i ∈ s.itemTypes) : .table i.name ∈ known ++ provided more := by
    have created : .createTable i.name (i.properties.map TableColumn.ofProperty) ∈ more :=
      inside (List.mem_flatMap.mpr ⟨i, member, by simp [itemTypeTable]⟩)
    exact List.mem_append_right known (mem_provided.mpr ⟨_, created, by simp [Statement.provides]⟩)
  refine foundedOn_append.mpr ⟨foundedOn_append.mpr ⟨foundedOn_append.mpr ⟨foundedOn_append.mpr
    ⟨grants, ?_⟩, ?_⟩, ?_⟩, foundedOn_of_needless (by decide)⟩
  · exact foundedOn_flatMap fun e _ => foundedOn_enumTable (role (by simp [createRole])) e
  · exact foundedOn_flatMap fun i _ => foundedOn_itemTypeTable (role (by simp [createRole])) i
  · rw [← List.flatMap_id]
    refine foundedOn_flatMap fun script inside => ?_
    obtain ⟨i, member, part⟩ := (mem_of_mapM made).mp inside
    refine foundedOn_constraintsAndIndexes member part (enumTables ?_) (itemTypeTables ?_)
    · exact fun st listed => List.mem_append_left _ (List.mem_append_right _ listed)
    · exact List.subset_append_right _ _

end Init

/-- A script whose statements rely on what its earlier statements provide. -/
def Founded (script : List Statement) : Prop :=
  ∀ front st back, script = front ++ st :: back → ∀ need ∈ st.needs, need ∈ provided front

theorem founded_init {s : Schema} {script : List Statement} (made : init s = .ok script) :
    Founded script := by
  obtain ⟨document, constraints, -, constrained, rfl⟩ := init_eq_ok made
  have founded : FoundedOn [] ((initFront s ++ .setDocument document :: initMiddle s constraints) ++
      createFunctions s true ++ initBack s) := by
    have front {need : Need} (given : need ∈ Statement.createConfiguration.provides) :
        need ∈ [] ++ provided (initFront s) ++ (Statement.setDocument document).provides := by
      refine List.mem_append_left _ (List.mem_append_right _ (mem_provided.mpr ⟨_, ?_, given⟩))
      simp [initFront]
    have role : .role ∈ [] ++
        provided (initFront s ++ .setDocument document :: initMiddle s constraints) := by
      refine List.mem_append_right _ (mem_provided.mpr ⟨.createRole, ?_, List.mem_cons_self⟩)
      simp [initMiddle, createRole]
    refine foundedOn_append.mpr ⟨foundedOn_append.mpr ⟨foundedOn_append.mpr ⟨?_, ?_⟩, ?_⟩, ?_⟩
    · exact foundedOn_of_needless fun _ => needs_initFront
    · refine foundedOn_cons.mpr
        ⟨List.forall_mem_nil _, foundedOn_initMiddle constrained (front ?_) (front ?_)⟩
      · exact List.mem_cons_self
      · exact List.mem_cons_of_mem _ List.mem_cons_self
    · exact foundedOn_flatMap fun d _ => foundedOn_createFunction role d
    · exact foundedOn_of_needless fun _ => needs_initBack
  exact founded

end LearningStore.Script
