import LearningStore.Proofs.Schema.Growth
import LearningStore.Proofs.Schema.Splitting

/-!
# What finishing demands

Drafts become a schema once every reference in them leads to an element, and every default that
is a value of an enum is one.  These demands are listed member by member; what finishing reports
are those that are not met, each once and in that order.  Whether a demand is met does not
depend on where in which file an element was declared, so that references may lead anywhere.
-/

namespace LearningStore.Schema

/-! ## Demands -/

/-- What is demanded on account of one member: that an item type exists, that an enum exists,
or that a number is a value of an enum. -/
inductive Demand where
  | itemType (subject : Subject) (name : String)
  | enum (subject : Subject) (name : String)
  | value (subject : Subject) (number : Int) (enum : String)
deriving DecidableEq, Repr

namespace Demand

/-- A number is compared with the values of an enum only if there is such an enum. -/
def Met (d : Drafts) : Demand → Prop
  | itemType _ name => ∃ i ∈ d.itemTypes, i.name = name
  | enum _ name => ∃ e ∈ d.enums, e.name = name
  | value _ number name => ∀ e ∈ d.toSchema.enum? name, ∃ v ∈ e.values, v.value = number

instance (d : Drafts) (x : Demand) : Decidable (x.Met d) :=
  match x with
  | itemType _ name => inferInstanceAs (Decidable (∃ i ∈ d.itemTypes, i.name = name))
  | enum _ name => inferInstanceAs (Decidable (∃ e ∈ d.enums, e.name = name))
  | value _ number name =>
      inferInstanceAs (Decidable (∀ e ∈ d.toSchema.enum? name, ∃ v ∈ e.values, v.value = number))

/-- What is reported where a demand is not met. -/
def problem : Demand → Problem
  | itemType subject name => ⟨none, .unknownItemType subject name⟩
  | enum subject name => ⟨none, .unknownEnum subject name⟩
  | value subject number name => ⟨none, .unknownEnumValue number subject name⟩

/-- The references of a member. -/
def ofMember (subject : Subject) (m : Member) : List Demand :=
  m.itemTypeName.toList.map (itemType subject) ++ m.enumName.toList.map (enum subject)

/-- The default of a property, if it is a value of the enum that the property refers to. -/
def ofDefault (p : Property) : List Demand :=
  match p.default, p.enumName with
  | some (.literal (.enumeration number)), some name => [value p.subject number name]
  | _, _ => []

def ofProperty (p : Property) : List Demand :=
  ofMember p.subject p.toMember ++ ofDefault p

def ofColumn (c : Column) : List Demand :=
  ofMember c.subject c.toMember

def ofParameter (p : Parameter) : List Demand :=
  ofMember p.subject p.toMember

end Demand

def ItemType.demands (i : ItemType) : List Demand :=
  i.properties.flatMap Demand.ofProperty

def View.demands (v : View) : List Demand :=
  v.columns.flatMap Demand.ofColumn ++ v.parameters.flatMap Demand.ofParameter

def Right.demands (r : Right) : List Demand :=
  r.parameters.flatMap Demand.ofParameter

namespace Drafts

/-- All demands of drafts in the order in which they are checked. -/
def demands (d : Drafts) : List Demand :=
  d.itemTypes.flatMap ItemType.demands ++ d.views.flatMap View.demands ++
    d.rights.flatMap Right.demands

/-- The demands that are not met. -/
def violations (d : Drafts) : List Demand :=
  d.demands.filter fun x => ¬x.Met d

/-- The members of all elements. -/
def members (d : Drafts) : List Member :=
  d.itemTypes.flatMap (fun i => i.properties.map Property.toMember) ++
    d.views.flatMap (fun v =>
      v.columns.map Column.toMember ++ v.parameters.map Parameter.toMember) ++
    d.rights.flatMap fun r => r.parameters.map Parameter.toMember

/-- The references of a member, where it has any, lead to an element. -/
structure Leads (d : Drafts) (m : Member) : Prop where
  itemType : ∀ name, m.itemTypeName = some name → ∃ i ∈ d.itemTypes, i.name = name
  enum : ∀ name, m.enumName = some name → ∃ e ∈ d.enums, e.name = name

/-- Every reference leads to an element, and every default that is a number is a value of the
enum of its property, if that enum exists. -/
structure Resolved (d : Drafts) : Prop where
  references : ∀ m ∈ d.members, d.Leads m
  defaults : ∀ i ∈ d.itemTypes, ∀ p ∈ i.properties, ∀ number name e,
    p.default = some (.literal (.enumeration number)) → p.enumName = some name →
      d.toSchema.enum? name = some e → ∃ v ∈ e.values, v.value = number

/-! ## Finishing reports what is not met -/

variable {d : Drafts}

/-- What is reported of a list of demands. -/
def reported (d : Drafts) (xs : List Demand) : List Problem :=
  (xs.filter fun x => ¬x.Met d).map Demand.problem

theorem reported_append (xs ys : List Demand) :
    d.reported (xs ++ ys) = d.reported xs ++ d.reported ys := by
  rw [reported, List.filter_append, List.map_append]
  rfl

theorem reported_flatMap {α : Type} (xs : List α) (f : α → List Demand) :
    d.reported (xs.flatMap f) = xs.flatMap fun a => d.reported (f a) := by
  simp only [reported, List.filter_flatMap, List.map_flatMap]

theorem reported_map {names : List String} {f : String → Demand} {known : String → Bool}
    (met : ∀ name, (f name).Met d ↔ known name = true) :
    d.reported (names.map f) =
      (names.filter fun name => !known name).map fun name => (f name).problem := by
  rw [reported, List.filter_map, List.map_map]
  congr 1
  exact List.filter_congr fun name _ => by simp [met name]

theorem unresolved_eq (subject : Subject) (m : Member) :
    d.unresolved subject m = d.reported (Demand.ofMember subject m) := by
  have itemTypes (name : String) : (Demand.itemType subject name).Met d ↔
      (d.itemTypes.any fun i => i.name == name) = true := by simp [Demand.Met]
  have enums (name : String) : (Demand.enum subject name).Met d ↔
      (d.enums.any fun e => e.name == name) = true := by simp [Demand.Met]
  rw [Demand.ofMember, reported_append, reported_map itemTypes, reported_map enums]
  rfl

theorem reported_of_met {x : Demand} (met : x.Met d) : d.reported [x] = [] := by
  simp [reported, met]

theorem reported_of_not_met {x : Demand} (unmet : ¬x.Met d) : d.reported [x] = [x.problem] := by
  simp [reported, unmet]

/-- A number has a name in an enum if it is one of the values there. -/
theorem met_value_iff {subject : Subject} {number : Int} {name : String} {e : EnumType}
    (known : d.toSchema.enum? name = some e) :
    (Demand.value subject number name).Met d ↔ (e.nameOf? number).isNone = false := by
  simp [Demand.Met, known, EnumType.nameOf?]

theorem strayDefault_eq (p : Property) : d.strayDefault p = d.reported (Demand.ofDefault p) := by
  unfold strayDefault
  split
  next number name given named =>
    rw [Demand.ofDefault, given, named]
    split
    next e found =>
      have same : e.name = name := by simpa using List.find?_some found
      have met : (Demand.value p.subject number name).Met d ↔ (e.nameOf? number).isNone = false :=
        met_value_iff found
      split
      next absent =>
        rw [reported_of_not_met (by rw [met, absent]; decide), same]
        rfl
      next present => rw [reported_of_met (met.mpr (Bool.eq_false_iff.mpr present))]
    next absent =>
      have unknown : d.toSchema.enum? name = none := absent
      rw [reported_of_met (by rw [Demand.Met, unknown]; exact nofun)]
  next other =>
    unfold Demand.ofDefault
    split
    next number name given named => exact (other number name given named).elim
    next => rfl

/-- What keeps drafts from being a schema are the demands that are not met. -/
theorem problems_eq : d.problems = d.violations.map Demand.problem := by
  have properties (i : ItemType) :
      i.properties.flatMap d.propertyProblems = d.reported i.demands := by
    rw [ItemType.demands, reported_flatMap]
    refine List.flatMap_congr fun p _ => ?_
    rw [propertyProblems, unresolved_eq, strayDefault_eq, ← reported_append, Demand.ofProperty]
  have columns (v : View) : v.columns.flatMap d.columnProblems =
      d.reported (v.columns.flatMap Demand.ofColumn) := by
    rw [reported_flatMap]
    exact List.flatMap_congr fun c _ => unresolved_eq c.subject c.toMember
  have parameters (ps : List Parameter) : ps.flatMap d.parameterProblems =
      d.reported (ps.flatMap Demand.ofParameter) := by
    rw [reported_flatMap]
    exact List.flatMap_congr fun p _ => unresolved_eq p.subject p.toMember
  have all : d.violations.map Demand.problem = d.reported d.demands := rfl
  simp only [problems, properties, columns, parameters, all, demands, reported_append,
    reported_flatMap, View.demands, Right.demands]

/-! ## Finishing succeeds where all demands are met -/

theorem met_ofMember_iff {subject : Subject} {m : Member} :
    (∀ x ∈ Demand.ofMember subject m, x.Met d) ↔ d.Leads m := by
  simp only [Demand.ofMember, List.forall_mem_append, List.forall_mem_map, Option.mem_toList]
  exact ⟨fun h => ⟨h.1, h.2⟩, fun h => ⟨h.itemType, h.enum⟩⟩

theorem met_ofDefault_iff {p : Property} : (∀ x ∈ Demand.ofDefault p, x.Met d) ↔
    ∀ number name e, p.default = some (.literal (.enumeration number)) → p.enumName = some name →
      d.toSchema.enum? name = some e → ∃ v ∈ e.values, v.value = number := by
  unfold Demand.ofDefault
  split
  next number name given named =>
    rw [List.forall_mem_singleton, given, named]
    constructor
    · rintro met _ _ e ⟨⟩ ⟨⟩ found
      exact met e found
    · exact fun valued e found => valued number name e rfl rfl found
  next other =>
    exact iff_of_true nofun fun number name e given named => (other number name given named).elim

/-- What holds of every member holds of those of all item types, views and rights. -/
theorem forall_members_iff {P : Member → Prop} : (∀ m ∈ d.members, P m) ↔
    (∀ i ∈ d.itemTypes, ∀ p ∈ i.properties, P p.toMember) ∧
      (∀ v ∈ d.views, (∀ c ∈ v.columns, P c.toMember) ∧ ∀ p ∈ v.parameters, P p.toMember) ∧
        ∀ r ∈ d.rights, ∀ p ∈ r.parameters, P p.toMember := by
  simp only [members, List.forall_mem_append, List.forall_mem_flatMap, List.forall_mem_map,
    and_assoc]

theorem forall_met_iff : (∀ x ∈ d.demands, x.Met d) ↔ d.Resolved := by
  simp only [demands, List.forall_mem_append, List.forall_mem_flatMap, ItemType.demands,
    View.demands, Right.demands, Demand.ofProperty, Demand.ofColumn, Demand.ofParameter,
    met_ofMember_iff, met_ofDefault_iff]
  constructor
  · rintro ⟨⟨itemTypes, views⟩, rights⟩
    refine ⟨forall_members_iff.mpr ⟨?_, views, rights⟩, ?_⟩
    · exact fun i member p inside => (itemTypes i member p inside).1
    · exact fun i member p inside => (itemTypes i member p inside).2
  · intro resolved
    obtain ⟨itemTypes, views, rights⟩ := forall_members_iff.mp resolved.references
    exact ⟨⟨fun i member p inside =>
      ⟨itemTypes i member p inside, resolved.defaults i member p inside⟩, views⟩, rights⟩

theorem violations_eq_nil_iff : d.violations = [] ↔ d.Resolved := by
  rw [← forall_met_iff]
  simp [violations, List.filter_eq_nil_iff]

end Drafts

/-! ## Demands of files -/

/-- The demands of the properties that an extension adds. -/
def ItemTypeExtension.demands (x : ItemTypeExtension) : List Demand :=
  (x.body.properties.map Declared.item).flatMap Demand.ofProperty

/-- The demands of the parameters that an extension adds. -/
def RightExtension.demands (x : RightExtension) : List Demand :=
  (x.parameters.map Declared.item).flatMap Demand.ofParameter

/-- The demands of the declarations and the extensions of a file. -/
def SchemaFile.demands (f : SchemaFile) : List Demand :=
  (f.itemTypes.map Declared.item).flatMap ItemType.demands ++
    f.itemTypeExtensions.flatMap ItemTypeExtension.demands ++
      (f.views.map Declared.item).flatMap View.demands ++
        ((f.rights.map Declared.item).flatMap Right.demands ++
          f.rightExtensions.flatMap RightExtension.demands)

/-- Documentation demands nothing. -/
theorem ItemType.demands_extendProperty (i : ItemType) (m : MemberExtension) :
    (i.extendProperty m).value.demands = i.demands := by
  unfold ItemType.extendProperty
  split
  next =>
    have same := map_updateFirst (p := fun p : Property => p.name == m.name)
      (f := fun p => p.extended m.documentation) (g := Demand.ofProperty) (l := i.properties)
      fun _ _ _ => rfl
    rw [Checked.pure_eq, Checked.value_pure, ItemType.demands, ItemType.demands, List.flatMap_def,
      List.flatMap_def, same]
  next => rfl

theorem ItemType.demands_extend {i : ItemType} {x : ItemTypeExtension}
    (clean : (i.extend x).Clean) :
    (i.extend x).value.demands = i.demands ++ x.demands := by
  rw [extend_eq, Checked.clean_bind] at clean
  obtain ⟨added, -⟩ := clean
  have grown : (Checked.through addProperty (i.opened x) x.body.properties).value.demands =
      i.demands ++ x.demands := by
    rw [value_through_addProperty added, ItemType.demands, List.flatMap_append,
      properties_opened]
    rfl
  exact Checked.through_preserves (P := fun j : ItemType => j.demands = i.demands ++ x.demands)
    (fun j m _ kept => (j.demands_extendProperty m).trans kept) grown

theorem Right.demands_extendParameter (r : Right) (m : MemberExtension) :
    (r.extendParameter m).value.demands = r.demands := by
  unfold Right.extendParameter
  split
  next =>
    have same := map_updateFirst (p := fun p : Parameter => p.name == m.name)
      (f := fun p => p.extended m.documentation) (g := Demand.ofParameter) (l := r.parameters)
      fun _ _ _ => rfl
    rw [Checked.pure_eq, Checked.value_pure, Right.demands, Right.demands, List.flatMap_def,
      List.flatMap_def, same]
  next => rfl

theorem Right.demands_extend {r : Right} {x : RightExtension} (clean : (r.extend x).Clean) :
    (r.extend x).value.demands = r.demands ++ x.demands := by
  rw [extend_eq, Checked.clean_bind] at clean
  obtain ⟨added, -⟩ := clean
  have grown : (Checked.through addParameter (r.opened x) x.parameters).value.demands =
      r.demands ++ x.demands := by
    rw [value_through_addParameter added, Right.demands, List.flatMap_append]
    rfl
  exact Checked.through_preserves (P := fun q : Right => q.demands = r.demands ++ x.demands)
    (fun q m _ kept => (q.demands_extendParameter m).trans kept) grown

/-- Files in another order demand the same. -/
theorem SchemaFile.demands_joinAll_perm {files others : List SchemaFile} (same : files.Perm others)
    (fileName : String) :
    (joinAll fileName files).demands.Perm (joinAll fileName others).demands := by
  have content {α : Type} (part : SchemaFile → List α)
      (joins : ∀ f g fileName, part (f.joined g fileName) = part f ++ part g)
      (nothing : part (.empty fileName) = []) :
      (part (joinAll fileName files)).Perm (part (joinAll fileName others)) := by
    rw [flatMap_joinAll joins fileName nothing, flatMap_joinAll joins fileName nothing]
    exact same.flatMap_right part
  have itemTypes := content SchemaFile.itemTypes (fun _ _ _ => rfl) rfl
  have itemTypeExtensions := content SchemaFile.itemTypeExtensions (fun _ _ _ => rfl) rfl
  have views := content SchemaFile.views (fun _ _ _ => rfl) rfl
  have rights := content SchemaFile.rights (fun _ _ _ => rfl) rfl
  have rightExtensions := content SchemaFile.rightExtensions (fun _ _ _ => rfl) rfl
  refine (((itemTypes.map _).flatMap_right _).append (itemTypeExtensions.flatMap_right _)).append
    ((views.map _).flatMap_right _) |>.append ?_
  exact ((rights.map _).flatMap_right _).append (rightExtensions.flatMap_right _)

namespace Drafts

/-- What a file that is accepted by new drafts makes demands what the file does. -/
theorem demands_merged {f : SchemaFile} (accepted : ({} : Drafts).Accepts f) :
    (({} : Drafts).merged f).demands.Perm f.demands := by
  have itemTypes := itemTypeMerge.flatMap_all_perm (g := ItemType.demands)
    (h := ItemTypeExtension.demands) (fun _ _ => ItemType.demands_extend) accepted.itemTypes
  have views := viewMerge.flatMap_all_perm (g := View.demands) (h := fun _ => [])
    (fun v _ _ => (List.append_nil v.demands).symm) accepted.views
  have rights := rightMerge.flatMap_all_perm (g := Right.demands)
    (h := RightExtension.demands) (fun _ _ => Right.demands_extend) accepted.rights
  have nothing : f.viewExtensions.flatMap (fun _ => ([] : List Demand)) = [] :=
    List.flatMap_eq_nil_iff.mpr fun _ _ => rfl
  rw [nothing, List.append_nil] at views
  exact (itemTypes.append views).append rights

/-! ## The order of files -/

/-- Drafts with the same enums and the same names of item types meet the same demands. -/
theorem met_congr {d e : Drafts} (enums : d.enums.Perm e.enums)
    (distinct : (d.enums.map EnumType.name).Nodup)
    (names : (d.itemTypes.map ItemType.name).Perm (e.itemTypes.map ItemType.name)) (x : Demand) :
    x.Met d ↔ x.Met e := by
  cases x with
  | itemType subject name =>
      have listed := names.mem_iff (a := name)
      rwa [List.mem_map, List.mem_map] at listed
  | enum subject name => simp only [Demand.Met, enums.mem_iff]
  | value subject number name =>
      have found : d.toSchema.enum? name = e.toSchema.enum? name := by
        refine Option.ext fun a => ?_
        have others := (enums.map EnumType.name).nodup_iff.mp distinct
        exact (find?_eq_some_iff distinct).trans
          ((and_congr_left' enums.mem_iff).trans (find?_eq_some_iff others).symm)
      rw [Demand.Met, found, Demand.Met]

theorem violations_perm {d e : Drafts} (enums : d.enums.Perm e.enums)
    (distinct : (d.enums.map EnumType.name).Nodup)
    (names : (d.itemTypes.map ItemType.name).Perm (e.itemTypes.map ItemType.name))
    (demands : d.demands.Perm e.demands) : d.violations.Perm e.violations := by
  have same : d.violations = d.demands.filter fun x => ¬x.Met e :=
    List.filter_congr fun x _ => by simp only [met_congr enums distinct names x]
  rw [same]
  exact demands.filter _

/-- What drafts hold of the files that they are made of. -/
structure Gathers (files : List SchemaFile) (d : Drafts) : Prop where
  enums : d.enums = files.flatMap fun f => f.enums.map Declared.item
  distinct : (d.enums.map EnumType.name).Nodup
  itemTypes : d.itemTypes.map ItemType.name =
    files.flatMap fun f => f.itemTypes.map fun x => x.item.name
  demands : d.demands.Perm (SchemaFile.joinAll "" files).demands

theorem gathers_of_through {files : List SchemaFile} {d : Drafts}
    (applied : Checked.through apply {} files = .pure d) : Gathers files d := by
  obtain ⟨e, joined, agrees⟩ := apply_joinAll "" applied
  obtain ⟨accepted, rfl⟩ := apply_eq_pure_iff.mp joined
  have declared : (SchemaFile.joinAll "" files).enums = files.flatMap SchemaFile.enums :=
    SchemaFile.flatMap_joinAll (fun _ _ _ => rfl) "" rfl files
  constructor
  · rw [← agrees.enums, ← List.map_flatMap, ← declared]
    rfl
  · rw [← agrees.enums]
    exact ElementKind.distinct_of_entries (k := enumKind) accepted.names.distinct
      (List.sublist_append_left _ _)
  · rw [← agrees.itemTypes, ← List.map_flatMap, ← SchemaFile.itemTypes_joinAll ""]
    refine (itemTypeMerge.names_all (fun i x => (i.grown_extend x).1.name) _ _).trans ?_
    exact List.map_map
  · have same : d.demands = (({} : Drafts).merged (SchemaFile.joinAll "" files)).demands := by
      rw [demands, demands, agrees.itemTypes, agrees.views, agrees.rights]
    rw [same]
    exact demands_merged accepted

theorem toList_of_finish {d : Drafts} {ps : Problems} (failed : d.finish = .error ps) :
    ps.toList = d.problems := by
  unfold finish at failed
  split at failed
  next found =>
    cases failed
    cases listed : d.problems with
    | nil =>
        rw [listed] at found
        cases found
    | cons first others =>
        rw [listed] at found
        cases found
        rfl
  next => cases failed

/-- What finishing makes of drafts: a schema with the elements that they have if everything is
resolved, and otherwise one report for each demand that is not met, in order. -/
structure Finishes (d : Drafts) : Prop where
  resolved : (∃ s, d.finish = .ok s) ↔ d.Resolved
  unchanged : ∀ s, d.finish = .ok s → s.enums = d.enums ∧ s.itemTypes = d.itemTypes ∧
    s.views = d.views ∧ s.rights = d.rights ∧ s.sqlBefore = d.sqlBefore ∧ s.sqlAfter = d.sqlAfter
  reported : ∀ ps, d.finish = .error ps → ps.toList = d.violations.map Demand.problem

theorem finishes (d : Drafts) : d.Finishes where
  resolved := by
    rw [← violations_eq_nil_iff]
    constructor
    · rintro ⟨s, finished⟩
      have none_left := (finish_eq_ok_iff.mp finished).1
      rwa [problems_eq, List.map_eq_nil_iff] at none_left
    · intro none_left
      exact ⟨d.toSchema, finish_eq_ok_iff.mpr ⟨by rw [problems_eq, none_left]; rfl, rfl⟩⟩
  unchanged := by
    intro s finished
    obtain ⟨-, rfl⟩ := finish_eq_ok_iff.mp finished
    exact ⟨rfl, rfl, rfl, rfl, rfl, rfl⟩
  reported ps failed := by rw [← problems_eq, toList_of_finish failed]

/-- Files in another order leave the same demands that are not met. -/
theorem violations_of_perm {files others : List SchemaFile} (same : files.Perm others)
    {d e : Drafts} (applied : Checked.through apply {} files = .pure d)
    (appliedOthers : Checked.through apply {} others = .pure e) :
    d.violations.Perm e.violations := by
  have first := gathers_of_through applied
  have second := gathers_of_through appliedOthers
  have enums : d.enums.Perm e.enums := by
    rw [first.enums, second.enums]
    exact same.flatMap_right _
  have names : (d.itemTypes.map ItemType.name).Perm (e.itemTypes.map ItemType.name) := by
    rw [first.itemTypes, second.itemTypes]
    exact same.flatMap_right _
  have demands := first.demands.trans
    ((SchemaFile.demands_joinAll_perm same "").trans second.demands.symm)
  exact violations_perm enums first.distinct names demands

/-- All drafts are finished so, and the order in which files were applied to new drafts has no
part in it, so that the members of any file may refer to the elements of any other. -/
theorem finishes_in_any_order : (∀ d : Drafts, d.Finishes) ∧
    ∀ files others : List SchemaFile, files.Perm others → ∀ d e,
      Checked.through apply {} files = .pure d → Checked.through apply {} others = .pure e →
        (d.Resolved ↔ e.Resolved) ∧ d.violations.Perm e.violations := by
  refine ⟨finishes, fun files others same d e applied appliedOthers => ?_⟩
  have violations := violations_of_perm same applied appliedOthers
  refine ⟨?_, violations⟩
  rw [← violations_eq_nil_iff, ← violations_eq_nil_iff]
  exact ⟨fun none_left => (none_left ▸ violations).nil_eq.symm,
    fun none_left => (none_left ▸ violations).eq_nil⟩

end Drafts

namespace Sample

/-- A file with an enum, and with a view of item types that it does not declare. -/
def moodFile : SchemaFile :=
  { SchemaFile.empty "mood.xml" with
    enums := [⟨mood, ⟨"mood.xml", 1, 1⟩⟩]
    views := [⟨⟨"Pets", [idColumn], [], "SELECT Id FROM Pet", [], {}, false⟩, ⟨"mood.xml", 2, 1⟩⟩] }

/-- A file with an item type that refers to the enum of the other. -/
def petFile : SchemaFile :=
  { SchemaFile.empty "pet.xml" with
    itemTypes := [⟨⟨"Pet", [moodProperty], [], ["@a"], [], [], [], [], {}, true⟩,
      ⟨"pet.xml", 1, 1⟩⟩] }

/-- Drafts with a default that is no value of its enum, and two references that lead nowhere. -/
def strayDrafts : Drafts :=
  { enums := [mood]
    itemTypes := [⟨"Cat", [{ moodProperty with
        default := some (.literal (.enumeration 2)), owner := "Cat" }, motherProperty],
      [], [], [], [], [], [], {}, true⟩]
    views :=
      [⟨"Pets", [{ idColumn with itemTypeName := some "Cat" }], [], "SELECT 1", [], {}, false⟩]
    rights := [⟨"Feed", [{ name := "Size", valueType := .enumeration, itemTypeName := none
                           enumName := some "Size", documentation := {}, inBase := false
                           owner := .right "Feed" }], [], {}, false⟩] }

end Sample

namespace Drafts

theorem finishes_in_any_order_sample :
    (∃ d e, Checked.through apply {} [Sample.petFile, Sample.moodFile] = .pure d ∧
      Checked.through apply {} [Sample.moodFile, Sample.petFile] = .pure e ∧
        (∃ s, d.finish = .ok s) ∧ ∃ s, e.finish = .ok s) ∧
      ∃ ps, Sample.strayDrafts.finish = .error ps ∧ ps.toList.map Problem.cause =
        [.unknownEnumValue 2 (.property "Cat" "Mood") "Mood",
          .unknownItemType (.property "Pet" "Mother") "Pet",
          .unknownEnum (.parameter (.right "Feed") "Size") "Size"] := by
  obtain ⟨finishes, order⟩ := finishes_in_any_order
  constructor
  · have first : (Checked.through apply {} [Sample.petFile, Sample.moodFile]).problems = [] := by
      decide +kernel
    have second : (Checked.through apply {} [Sample.moodFile, Sample.petFile]).problems = [] := by
      decide +kernel
    have made := Checked.eq_pure_of_clean first
    have madeOther := Checked.eq_pure_of_clean second
    have complete : (Checked.through apply {} [Sample.petFile, Sample.moodFile]).value.problems =
        [] := by decide +kernel
    have finished := finish_eq_ok_iff.mpr ⟨complete, rfl⟩
    have resolved := (finishes _).resolved.mp ⟨_, finished⟩
    have same := order _ _ (List.Perm.swap _ _ _) _ _ made madeOther
    exact ⟨_, _, made, madeOther, ⟨_, finished⟩, (finishes _).resolved.mpr (same.1.mp resolved)⟩
  · cases ended : Sample.strayDrafts.finish with
    | ok s => cases ended
    | error ps =>
        refine ⟨ps, rfl, ?_⟩
        rw [(finishes _).reported ps ended]
        decide +kernel

end Drafts

end LearningStore.Schema
