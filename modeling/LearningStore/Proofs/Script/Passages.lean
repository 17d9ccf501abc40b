import LearningStore.Proofs.Script.Creation
import LearningStore.Proofs.Text.SteadyText

/-!
# Passages of a script

Each statement that a script makes up itself is written as a passage of lines, and the first words
of the passage tell which statement it is.  So what a script creates and grants can be told from its
lines as well as from its statements.  The snippets of a schema file stand between the passages as
they are, and are not looked into.
-/

namespace LearningStore.Script

open LearningStore.Text

/-! ## Passages -/

/-- The lines of a statement, unless it is a blank line or a snippet of a schema file. -/
def Statement.passage? : Statement → Option (List Line)
  | snippet _ | blank => none
  | st => some st.lines

/-- The passages of a script, in order. -/
def passages (script : List Statement) : List (List Line) :=
  script.filterMap Statement.passage?

/-- Whether the first line of a passage begins with some words. -/
def opensWith (words : String) (passage : List Line) : Bool :=
  passage.head?.any fun l => words.toList.isPrefixOf l.text.toList

theorem opensWith_cons {words : String} {l : Line} {others : List Line} :
    opensWith words (l :: others) = true ↔ words.toList <+: l.text.toList :=
  List.isPrefixOf_iff_prefix

/-- What the passage of each statement tells, the passages of a script tell in order. -/
theorem map_filter_passages {α γ : Type} {test : List Line → Bool} {shown : List Line → γ}
    {read : Statement → Option α} {write : α → γ}
    (each : ∀ st : Statement, (st.passage?.filter test).map shown = (read st).map write)
    (script : List Statement) :
    ((passages script).filter test).map shown = (script.filterMap read).map write := by
  rw [passages, List.filter_filterMap, List.map_filterMap, List.map_filterMap]
  exact List.filterMap_congr fun st _ => each st

/-- The passages behind a passage are those of the statements behind its statement. -/
theorem exists_of_suffix_passages {script : List Statement} {p : List Line}
    {rest : List (List Line)} (suffix : p :: rest <:+ passages script) :
    ∃ st others, st :: others <:+ script ∧ st.passage? = some p ∧ passages others = rest := by
  obtain ⟨front, whole⟩ := suffix
  obtain ⟨before, behind, rfl, -, same⟩ := List.filterMap_eq_append_iff.mp whole.symm
  obtain ⟨skipped, st, others, rfl, -, own, later⟩ := List.filterMap_eq_cons_iff.mp same
  refine ⟨st, others, ?_, own, later⟩
  exact (List.suffix_append skipped _).trans (List.suffix_append before _)

/-! ## First words -/

theorem opensWith_eq_false {a b : String} {p : List Line} (opens : opensWith a p = true)
    (other : departs a.toList (b.toList.map lowerLetter) = true) : opensWith b p = false := by
  cases p with
  | nil => rfl
  | cons l others =>
      obtain ⟨rest, text⟩ := opensWith_cons.mp opens
      rw [opensWith, List.head?_cons, Option.any_some, ← text]
      exact isPrefixOf_eq_false other rfl rest

namespace Statement

/-- The words that the first line of a statement begins with. -/
def opening : Statement → String
  | comment _ => "-- "
  | snippet _ | blank => ""
  | endBatch => "GO"
  | raiseIf _ _ => "IF "
  | turnOn _ => "SET "
  | commit => "COMMIT TRANSACTION"
  | createConfiguration => "CREATE TABLE Configuration ("
  | setDocument _ => "DECLARE @schema "
  | insertConfiguration => "INSERT INTO Configuration ("
  | createRole => "CREATE ROLE "
  | grantConfiguration | grant _ _ => "GRANT "
  | createEnumTable _ | createTable _ _ => "CREATE TABLE ["
  | identityInsert _ _ => "SET IDENTITY_INSERT "
  | insertRow _ _ _ => "INSERT INTO ["
  | addForeignKey _ => "ALTER TABLE "
  | createFunction _ => "CREATE FUNCTION "
  | dropRecorded => "DECLARE @name "
  | declareCommand => "DECLARE @command "
  | deleteAttribute _ | deleteRecords _ | insertAttribute _ _ _ => "UPDATE Configuration "
  | insertRecord _ => "SET @command "

theorem opensWith_createFunction (f : SqlFunction) :
    opensWith "CREATE FUNCTION " f.lines = true := by
  unfold SqlFunction.lines SqlFunction.header
  rw [opensWith_cons, line, String.append_assoc, String.append_assoc, String.append_assoc,
    String.toList_append]
  exact List.prefix_append _ _

/-- The first line of a passage begins with the words of its statement. -/
theorem passage?_cases (st : Statement) : st.passage? = none ∨
    st.passage? = some st.lines ∧ opensWith st.opening st.lines = true := by
  cases st with
  | snippet | blank => exact .inl rfl
  | createFunction f => exact .inr ⟨rfl, opensWith_createFunction f⟩
  | _ =>
      refine .inr ⟨rfl, opensWith_cons.mpr ?_⟩
      simp [line, modifyLine, bracketed, opening]

theorem opensWith_opening (st : Statement) {p : List Line} (written : st.passage? = some p) :
    opensWith st.opening p = true := by
  rcases st.passage?_cases with none_own | ⟨own, opens⟩
  · rw [none_own] at written
    cases written
  · rw [← Option.some.inj (own.symm.trans written)]
    exact opens

section Others

variable {st : Statement} {words : String}
  (other : departs st.opening.toList (words.toList.map lowerLetter) = true)

include other

theorem not_opensWith {p : List Line} (written : st.passage? = some p) :
    ¬opensWith words p = true :=
  ne_true_of_eq_false (opensWith_eq_false (st.opensWith_opening written) other)

/-- A statement with other first words is not taken for one with these. -/
theorem filter_passage?_eq_none {test : List Line → Bool}
    (begins : ∀ p, test p = true → opensWith words p = true) :
    st.passage?.filter test = none :=
  Option.filter_eq_none_iff.mpr fun p written passes =>
    not_opensWith other written (begins p passes)

theorem bind_passage?_eq_none {α : Type} {read : List Line → Option α}
    (begins : ∀ p a, read p = some a → opensWith words p = true) :
    st.passage?.bind read = none :=
  Option.bind_eq_none_iff.mpr fun p written =>
    Option.eq_none_iff_forall_ne_some.mpr fun a found =>
      not_opensWith other written (begins p a found)

end Others

end Statement

/-! ## Created functions -/

theorem Statement.filter_passage?_created (st : Statement) :
    st.passage?.filter (opensWith "CREATE FUNCTION ") = st.created?.map SqlFunction.lines := by
  cases st with
  | snippet | blank => rfl
  | createFunction f => exact Option.filter_some_pos (opensWith_createFunction f)
  | _ => exact filter_passage?_eq_none (by simp only [opening]; decide) fun _ => id

/-- The passages that create functions are those of the functions that a script creates. -/
theorem filter_passages_created (script : List Statement) :
    (passages script).filter (opensWith "CREATE FUNCTION ") =
      (created script).map SqlFunction.lines := by
  have each (st : Statement) : (st.passage?.filter (opensWith "CREATE FUNCTION ")).map id =
      st.created?.map SqlFunction.lines := by
    rw [Option.map_id_apply, st.filter_passage?_created]
  rw [← List.map_id (List.filter _ _)]
  exact map_filter_passages each script

/-- A passage that creates a function is that of a statement in the script that does. -/
theorem exists_creation_of_suffix {script : List Statement} {p : List Line}
    {rest : List (List Line)} (suffix : p :: rest <:+ passages script)
    (opens : opensWith "CREATE FUNCTION " p = true) : ∃ f others,
      .createFunction f :: others <:+ script ∧ p = f.lines ∧ passages others = rest := by
  obtain ⟨st, others, inside, own, behind⟩ := exists_of_suffix_passages suffix
  have creates := st.filter_passage?_created
  rw [own, Option.filter_some_pos opens] at creates
  cases st with
  | createFunction f => exact ⟨f, others, inside, Option.some.inj creates, behind⟩
  | _ => cases creates

/-! ## Grants -/

def Permission.all : List Permission :=
  [.select, .change, .execute]

theorem Permission.mem_all (permission : Permission) : permission ∈ all := by
  cases permission <;> decide

/-- The line that grants something on an object. -/
def grantLine (permission : Permission) (object : String) : Line :=
  line ("GRANT " ++ permission.text ++ " ON " ++ object ++ " TO " ++ role)

/-- How a script spells an object: in brackets, and the table with the stored document as it is. -/
def spellings (name : String) : List String :=
  bracketed name :: if name = "Configuration" then [name] else []

/-- What a passage grants the role on the object with a name. -/
def grantIn? (name : String) (passage : List Line) : Option Permission :=
  Permission.all.find? fun permission =>
    (spellings name).any fun object => passage == [grantLine permission object]

/-- What is granted, and on what, can be told from the words. -/
theorem Permission.text_append_inj {permission other : Permission} {object name : String}
    (same : permission.text ++ (" ON " ++ object) = other.text ++ (" ON " ++ name)) :
    permission = other ∧ object = name := by
  rw [← String.toList_inj] at same
  cases permission <;> cases other <;>
    simp [Permission.text, String.toList_append] at same ⊢ <;>
    exact String.toList_inj.mp same

theorem grantLine_inj {permission other : Permission} {object name : String}
    (same : grantLine permission object = grantLine other name) :
    permission = other ∧ object = name := by
  have whole : "GRANT " ++ permission.text ++ " ON " ++ object ++ " TO " ++ role =
      "GRANT " ++ other.text ++ " ON " ++ name ++ " TO " ++ role := congrArg Line.text same
  have texts := (String.append_left_inj _).mp ((String.append_left_inj _).mp whole)
  rw [String.append_assoc, String.append_assoc, String.append_assoc, String.append_assoc,
    String.append_right_inj] at texts
  exact Permission.text_append_inj texts

theorem grantIn?_eq_some_iff {name : String} {passage : List Line} {permission : Permission} :
    grantIn? name passage = some permission ↔
      ∃ object ∈ spellings name, passage = [grantLine permission object] := by
  have grants {other : Permission} (found : grantIn? name passage = some other) :
      ∃ object ∈ spellings name, passage = [grantLine other object] := by
    unfold grantIn? at found
    have held := List.find?_some found
    obtain ⟨object, spelled, same⟩ := List.any_eq_true.mp held
    exact ⟨object, spelled, eq_of_beq same⟩
  constructor
  · exact grants
  · rintro ⟨object, spelled, rfl⟩
    cases found : grantIn? name [grantLine permission object] with
    | none =>
        refine absurd ?_ (List.find?_eq_none.mp found permission permission.mem_all)
        exact List.any_eq_true.mpr ⟨object, spelled, beq_self_eq_true _⟩
    | some other =>
        obtain ⟨_, -, same⟩ := grants found
        rw [(grantLine_inj (List.singleton_inj.mp same)).1]

theorem grantIn?_grantLine {permission : Permission} {object name : String} :
    grantIn? name [grantLine permission object] =
      if object ∈ spellings name then some permission else none := by
  split
  next spelled => exact grantIn?_eq_some_iff.mpr ⟨object, spelled, rfl⟩
  next other =>
    refine Option.eq_none_iff_forall_ne_some.mpr fun _ found => ?_
    obtain ⟨_, spelled, same⟩ := grantIn?_eq_some_iff.mp found
    rw [← (grantLine_inj (List.singleton_inj.mp same)).2] at spelled
    exact other spelled

theorem opensWith_of_grantIn? {name : String} {p : List Line} {permission : Permission}
    (granted : grantIn? name p = some permission) : opensWith "GRANT " p = true := by
  obtain ⟨object, -, rfl⟩ := grantIn?_eq_some_iff.mp granted
  refine opensWith_cons.mpr ?_
  simp [grantLine, line, String.toList_append]

theorem mem_spellings_iff {name spelled : String} : spelled ∈ spellings name ↔
    spelled = bracketed name ∨ name = "Configuration" ∧ spelled = name := by
  unfold spellings
  rw [List.mem_cons]
  split
  next is => rw [List.mem_singleton, and_iff_right is]
  next other => simp [other]

theorem bracketed_ne_configuration (name : String) : bracketed name ≠ "Configuration" := by
  rw [ne_eq, ← String.toList_inj]
  simp [bracketed]

theorem bracketed_mem_spellings_iff {object name : String} :
    bracketed object ∈ spellings name ↔ object = name := by
  rw [mem_spellings_iff]
  constructor
  · rintro (same | ⟨rfl, same⟩)
    · exact (String.append_right_inj _).mp ((String.append_left_inj _).mp same)
    · exact absurd same (bracketed_ne_configuration object)
  · rintro rfl
    exact .inl rfl

theorem configuration_mem_spellings_iff {name : String} :
    "Configuration" ∈ spellings name ↔ "Configuration" = name := by
  rw [mem_spellings_iff]
  constructor
  · rintro (same | ⟨-, same⟩)
    · exact absurd same.symm (bracketed_ne_configuration name)
    · exact same
  · rintro rfl
    exact .inr ⟨rfl, rfl⟩

namespace Statement

theorem bind_passage?_grantIn? (name : String) (st : Statement) :
    st.passage?.bind (grantIn? name) = st.grantOn? name := by
  cases st with
  | snippet | blank => rfl
  | grant permission object =>
      refine grantIn?_grantLine.trans ?_
      simp only [bracketed_mem_spellings_iff]
      rfl
  | grantConfiguration =>
      have lines : grantConfiguration.lines = [grantLine .select "Configuration"] := by decide
      refine (congrArg (grantIn? name) lines).trans (grantIn?_grantLine.trans ?_)
      simp only [configuration_mem_spellings_iff]
      rfl
  | _ =>
      exact bind_passage?_eq_none (by simp only [opening]; decide) fun _ _ => opensWith_of_grantIn?

end Statement

/-- What a script grants on an object, its passages grant. -/
theorem filterMap_passages_grantIn? (name : String) (script : List Statement) :
    (passages script).filterMap (grantIn? name) = grantsOn name script := by
  rw [passages, List.filterMap_filterMap]
  exact List.filterMap_congr fun st _ => st.bind_passage?_grantIn? name

end LearningStore.Script
