import LearningStore.CommandLine.Basic
import LearningStore.Proofs.Compile.Outputs
import LearningStore.Proofs.Schema.Wording
import Mathlib.Algebra.BigOperators.Group.List.Basic

/-!
# What is printed on problems

A run whose schema has problems prints the report on them behind its notes.  The report comes twice,
with a colon between, so the last row of the first one and the first row of the second are one row,
and the problems never stand on as many rows as they are.
-/

namespace LearningStore.Text

/-! ## Rows of joined texts -/

theorem rows_injective : Function.Injective rows := by
  intro s t same
  have joined (u : List Char) : ['\n'].intercalate (rows u) = u := List.intercalate_splitOn '\n'
  rw [← joined s, same, joined t]

theorem rows_intercalate {ts : List (List Char)} (some_text : ts ≠ []) :
    rows (['\n'].intercalate ts) = ts.flatMap rows := by
  induction ts with
  | nil => exact absurd rfl some_text
  | cons t ts ih =>
      cases ts with
      | nil => simp
      | cons u us =>
          rw [List.intercalate_cons_cons, List.append_assoc, List.singleton_append,
            rows_append_feed, ih (List.cons_ne_nil u us)]
          rfl

/-- The rows of a text that comes twice, with another text between: its last row and its first row
are one row around what is between them. -/
def doubled (between : List Char) (rs : List (List Char)) : List (List Char) :=
  rs.dropLast ++ (rs.getLastD [] ++ between ++ rs.headD []) :: rs.tail

theorem rows_doubled {between : List Char} (plain : '\n' ∉ between) (t : List Char) :
    rows (t ++ between ++ t) = doubled between (rows t) := by
  obtain ⟨xs, x, front, glue⟩ := rows_append t
  obtain ⟨y, ys, back⟩ := exists_cons_of_rows t
  rw [List.append_assoc, glue _ _ _ (rows_append_of_notMem plain back), doubled]
  have last : (rows t).dropLast = xs ∧ (rows t).getLastD [] = x := by simp [front]
  have first : (rows t).headD [] = y ∧ (rows t).tail = ys := by simp [back]
  rw [last.1, last.2, first.1, first.2, List.append_assoc]

theorem length_doubled (between : List Char) {rs : List (List Char)} (some_row : rs ≠ []) :
    (doubled between rs).length + 1 = 2 * rs.length := by
  have positive := List.length_pos_iff.mpr some_row
  simp only [doubled, List.length_append, List.length_cons, List.length_dropLast, List.length_tail]
  omega

end LearningStore.Text

namespace LearningStore.Files.Workspace

/-! ## Operations that print nothing -/

section Silent

variable {α β : Type}

/-- An operation that prints nothing. -/
def Silent (x : StateM Workspace α) : Prop :=
  ∀ w, (x.run w).2.output = w.output

theorem Silent.pure (a : α) : Silent (pure a) :=
  fun _ => rfl

theorem Silent.bind {x : StateM Workspace α} {f : α → StateM Workspace β} (first : Silent x)
    (next : ∀ a, Silent (f a)) : Silent (x >>= f) := fun w => by
  rw [run_bind, next, first]

theorem silent_change (f : FileTree → Except FileError FileTree) : Silent (change f) := by
  intro w
  unfold change
  cases changed : f w.files <;> simp [StateT.run, changed]

theorem silent_settleDirectory (path : String) : Silent (settleDirectory path : Operation) := by
  have made : Silent (FileAccess.makeDirectory path : Operation) := silent_change _
  have looked : Silent (FileAccess.isDirectory path : StateM Workspace Bool) := fun _ => rfl
  unfold settleDirectory
  refine made.bind fun result => ?_
  split
  next =>
    refine looked.bind fun stands => ?_
    split <;> exact .pure _
  next => exact .pure _

theorem silent_makeDirectories (paths : List String) :
    Silent (makeDirectories paths : Operation) := by
  induction paths with
  | nil => exact .pure _
  | cons nearest outer ih =>
      unfold makeDirectories
      refine (silent_settleDirectory nearest).bind fun result => ?_
      split
      next =>
        refine ih.bind fun around => ?_
        split
        next => exact silent_settleDirectory nearest
        next => exact .pure _
      next => exact .pure _

theorem silent_writeText (path text : String) : Silent (writeText path text : Operation) := by
  unfold writeText
  refine (silent_makeDirectories _).bind fun result => ?_
  split
  next => exact silent_change _
  next => exact .pure _

end Silent

end LearningStore.Files.Workspace

namespace LearningStore.Compile

open LearningStore.Files
open LearningStore.Schema

/-! ## Notes of a compilation -/

/-- Texts as they are printed, each with the end of its line. -/
def printed (notes : List String) : String :=
  String.join (notes.map (· ++ "\n"))

section Notes

variable {α β : Type} {verbose : Bool}

/-- What an action prints is some notes, and none if they are not wanted. -/
def Notes (verbose : Bool) (x : ExceptT CompileError (StateM Workspace) α) : Prop :=
  ∀ w, ∃ notes, (verbose = false → notes = []) ∧
    (outcome x w).2.output = w.output ++ printed notes

theorem Notes.of_silent {x : ExceptT CompileError (StateM Workspace) α}
    (silent : ∀ w, (outcome x w).2.output = w.output) : Notes verbose x :=
  fun w => ⟨[], fun _ => rfl, (silent w).trans String.append_empty.symm⟩

theorem Notes.pure (a : α) : Notes verbose (Pure.pure a) :=
  .of_silent fun _ => rfl

theorem Notes.bind {x : ExceptT CompileError (StateM Workspace) α}
    {f : α → ExceptT CompileError (StateM Workspace) β} (first : Notes verbose x)
    (next : ∀ a, Notes verbose (f a)) : Notes verbose (x >>= f) := by
  intro w
  obtain ⟨notes, wanted, here⟩ := first w
  rw [outcome_bind]
  rcases ended : outcome x w with ⟨_ | a, v⟩
  · rw [ended] at here
    exact ⟨notes, wanted, here⟩
  · rw [ended] at here
    obtain ⟨more, later, there⟩ := next a v
    refine ⟨notes ++ more, fun quiet => ?_, ?_⟩
    · rw [wanted quiet, later quiet]
      rfl
    · rw [there, here, printed, printed, printed, List.map_append, String.join_append,
        String.append_assoc]

theorem Notes.mapM {f : α → ExceptT CompileError (StateM Workspace) β}
    (each : ∀ a, Notes verbose (f a)) (xs : List α) : Notes verbose (xs.mapM f) := by
  induction xs with
  | nil => exact .pure []
  | cons a rest ih =>
      rw [List.mapM_cons]
      exact (each a).bind fun b => ih.bind fun bs => .pure _

theorem notes_note (verbose : Bool) (text : String) : Notes verbose (note verbose text) := by
  cases verbose with
  | false => exact .of_silent fun _ => rfl
  | true =>
      refine fun w => ⟨[text], nofun, ?_⟩
      rw [printed, List.map_singleton, String.join_cons]
      exact congrArg (w.output ++ ·) String.append_empty.symm

theorem notes_loadNoting (o : Options) (title : String) (derived : Option String) :
    Notes o.verbose (loadNoting o title derived) := by
  have loads : Notes o.verbose (load (.ofPath o.baseSchema) derived) :=
    .of_silent fun w => by rw [outcome_load]
  exact (notes_note _ title).bind fun _ => loads.bind fun s =>
    (notes_note _ (counts s)).bind fun _ => .pure s

theorem notes_writeOutput (verbose : Bool) (s : Schema) (output : Output) :
    Notes verbose (writeOutput verbose s output) := by
  unfold writeOutput
  refine (notes_note _ _).bind fun _ => Notes.bind (.of_silent fun _ => rfl) fun text => ?_
  refine Notes.bind (.of_silent fun w => ?_) fun _ => .pure output.path
  rw [outcome_attempt]
  exact Workspace.silent_writeText output.path text w

theorem notes_compile (o : Options) : Notes o.verbose (compile o) := by
  have base : Notes o.verbose (compileBase o) := by
    unfold compileBase
    split
    next => exact .pure []
    next =>
      exact (notes_loadNoting o _ none).bind fun s => .mapM (notes_writeOutput o.verbose s) _
  have derived : Notes o.verbose (compileDerived o) := by
    unfold compileDerived
    split
    next => exact .pure []
    next input _ =>
      exact (notes_loadNoting o _ (some input)).bind fun s =>
        .mapM (notes_writeOutput o.verbose s) _
  unfold compile
  refine Notes.bind (.of_silent fun _ => rfl) fun _ => base.bind fun first => ?_
  exact derived.bind fun second => (notes_note _ _).bind fun _ => .pure _

end Notes

end LearningStore.Compile

namespace LearningStore.CommandLine

open LearningStore.Compile
open LearningStore.Files
open LearningStore.Schema
open LearningStore.Text

/-! ## Reports on problems -/

section Reports

variable {arguments : List String} {o : Options} {ps : Problems} {w : Workspace}

/-- The rows of what is said about each problem, one problem after the other. -/
def rowsOf (ps : Problems) : List (List Char) :=
  ps.toList.flatMap fun p => rows p.text.toList

/-- A text reports each problem once, on a row of its own. -/
def ReportsEach (ps : Problems) (text : String) : Prop :=
  rows text.toList = (ps.toList.map fun p => p.text.toList) ++ [[]]

instance (ps : Problems) (text : String) : Decidable (ReportsEach ps text) :=
  inferInstanceAs (Decidable (_ = _))

/-- What is printed on problems. -/
def report (ps : Problems) : String :=
  (CompileError.invalid ps).report ++ "\n"

theorem report_eq (ps : Problems) : report ps = ps.text ++ ": " ++ ps.text ++ "\n" := by
  have pieces : report ps = ": ".intercalate [ps.text, ps.text] ++ "\n" := rfl
  rw [pieces, String.intercalate_cons_cons, String.intercalate_singleton]

theorem toList_report (ps : Problems) :
    (report ps).toList = (ps.text.toList ++ [':', ' '] ++ ps.text.toList) ++ '\n' :: [] := by
  rw [report_eq, String.toList_append, String.toList_append, String.toList_append]
  rfl

theorem rows_text (ps : Problems) : rows ps.text.toList = rowsOf ps := by
  have texts : ps.toList.map (String.toList ∘ Problem.text) ≠ [] := List.cons_ne_nil _ _
  rw [Problems.text, String.toList_intercalate, List.map_map, rowsOf]
  exact (rows_intercalate texts).trans (List.flatMap_map _ _ _)

theorem rowsOf_ne_nil (ps : Problems) : rowsOf ps ≠ [] := by
  rw [← rows_text]
  exact List.splitOnP_ne_nil _ _

theorem rows_report (ps : Problems) :
    rows (report ps).toList = doubled [':', ' '] (rowsOf ps) ++ [[]] := by
  rw [toList_report, rows_append_feed, rows_doubled (by decide), rows_text]
  rfl

/-- Every problem has at least one row, and together they are printed on twice as many rows but
one. -/
theorem length_rows_report (ps : Problems) :
    ps.size ≤ (rowsOf ps).length ∧ (rows (report ps).toList).length = 2 * (rowsOf ps).length := by
  constructor
  · have each : ∀ p ∈ ps.toList, 1 ≤ (rows p.text.toList).length := fun p _ =>
      List.length_pos_iff.mpr (List.splitOnP_ne_nil _ _)
    rw [rowsOf, List.length_flatMap]
    have sum := List.length_le_sum_of_one_le (ps.toList.map fun p => (rows p.text.toList).length)
      (List.forall_mem_map.mpr each)
    rwa [List.length_map] at sum
  · rw [rows_report, List.length_append, ← length_doubled [':', ' '] (rowsOf_ne_nil ps)]
    rfl

/-- What is said about each problem stands on one row if all that it quotes does. -/
theorem rowsOf_eq_iff (ps : Problems) :
    rowsOf ps = (ps.toList.map fun p => p.text.toList) ↔
      ∀ p ∈ ps.toList, ∀ q ∈ p.quoted, OneRow q := by
  calc rowsOf ps = (ps.toList.map fun p => p.text.toList)
      ↔ ∀ p ∈ ps.toList, OneRow p.text := by
        constructor
        · intro same p member
          have row : p.text.toList ∈ rowsOf ps := same ▸ List.mem_map_of_mem member
          obtain ⟨other, -, inside⟩ := List.mem_flatMap.mp row
          exact feed_notMem_of_mem_rows inside
        · intro single
          rw [rowsOf, List.map_eq_flatMap]
          exact List.flatMap_congr fun p member => rows_single (single p member)
    _ ↔ ∀ p ∈ ps.toList, ∀ q ∈ p.quoted, OneRow q :=
        forall₂_congr fun p _ => p.oneRow_text_iff

/-- A report never has each problem once on a row of its own: it would be as long as one that comes
once. -/
theorem not_reportsEach (ps : Problems) : ¬ReportsEach ps (report ps) := by
  intro each
  have single : ∀ p ∈ ps.toList, rows p.text.toList = [p.text.toList] := fun p member =>
    rows_single (feed_notMem_of_mem_rows
      (each ▸ List.mem_append_left _ (List.mem_map_of_mem member)))
  have once : rows (ps.text.toList ++ '\n' :: []) = rows (report ps).toList := by
    rw [each, rows_append_feed, rows_text, rowsOf, List.flatMap_congr single,
      ← List.map_eq_flatMap]
    rfl
  have length := congrArg List.length (rows_injective once)
  rw [toList_report] at length
  simp only [List.length_append, List.length_cons, List.length_nil] at length
  omega

theorem run_invalid (parsed : parse arguments = .ok o)
    (refused : (outcome (compile o) w).1 = .error (.invalid ps)) :
    (run arguments : StateM Workspace UInt32).run w =
      (failed, { (outcome (compile o) w).2 with
        output := (outcome (compile o) w).2.output ++ report ps }) := by
  unfold run
  rw [parsed]
  dsimp only
  rw [Workspace.run_bind]
  have compiled : StateT.run (ExceptT.run (compile (m := StateM Workspace) o)) w =
      outcome (compile o) w := rfl
  rw [compiled, refused]
  rfl

end Reports

/-- A run that is refused over problems fails and prints the report on them twice, with a colon
between, behind its notes.  So the problems are never reported once each, on rows of their own, and
each of them stands on one row in what is said about them if nothing that is quoted goes over a
line end. -/
theorem reported_of_run {arguments : List String} {o : Options} {ps : Problems} {w : Workspace}
    (parsed : parse arguments = .ok o)
    (refused : (outcome (compile o) w).1 = .error (.invalid ps)) :
    ((run arguments : StateM Workspace UInt32).run w).1 = failed ∧
    (∃ notes, (o.verbose = false → notes = []) ∧
      ((run arguments : StateM Workspace UInt32).run w).2.output =
        w.output ++ printed notes ++ report ps) ∧
    rows (report ps).toList = doubled [':', ' '] (rowsOf ps) ++ [[]] ∧
    ps.size ≤ (rowsOf ps).length ∧ (rows (report ps).toList).length = 2 * (rowsOf ps).length ∧
    ¬ReportsEach ps (report ps) ∧
    (rowsOf ps = (ps.toList.map fun p => p.text.toList) ↔
      ∀ p ∈ ps.toList, ∀ q ∈ p.quoted, OneRow q) := by
  obtain ⟨notes, wanted, noted⟩ := notes_compile o w
  obtain ⟨each, length⟩ := length_rows_report ps
  rw [run_invalid parsed refused]
  refine ⟨rfl, ⟨notes, wanted, ?_⟩, rows_report ps, each, length, not_reportsEach ps,
    rowsOf_eq_iff ps⟩
  rw [noted]

namespace Sample

/-- A workspace with a file that is no schema file. -/
def stray : Workspace :=
  { files := { entries := [(["base.xml"], .file "<a/>".toUTF8.data.toList)] } }

def checking : List String :=
  ["/BaseSchema", "base.xml", "/OutputBaseInit", "init.sql"]

def checked : Options :=
  { baseSchema := some "base.xml", outputBaseInit := some "init.sql" }

def problems : Problems :=
  ⟨⟨some ⟨"base.xml", 1, 1⟩, .wrongRoot⟩, []⟩

theorem parse_checking : parse checking = .ok checked := by
  decide

theorem compile_stray : (outcome (compile checked) stray).1 = .error (.invalid problems) := by
  decide +kernel

end Sample

theorem reported_stray :
    ((run Sample.checking : StateM Workspace UInt32).run Sample.stray).1 = failed ∧
      ¬ReportsEach Sample.problems (report Sample.problems) ∧
      rowsOf Sample.problems = Sample.problems.toList.map fun p => p.text.toList := by
  obtain ⟨code, -, -, -, -, glued, single⟩ :=
    reported_of_run Sample.parse_checking Sample.compile_stray
  exact ⟨code, glued, single.mpr (by decide)⟩

/-- A problem that stands on one row is printed twice on one row. -/
theorem run_stray :
    (outcome (compile Sample.checked) Sample.stray).1 = .error (.invalid Sample.problems) ∧
      ((run Sample.checking : StateM Workspace UInt32).run Sample.stray).2.output =
        "base.xml(1,1): error: root element must be <StoreSchema xmlns=\"" ++ schemaNamespace ++
          "\">: base.xml(1,1): error: root element must be <StoreSchema xmlns=\"" ++
          schemaNamespace ++ "\">\n" ∧
      ¬ReportsEach Sample.problems
        ((run Sample.checking : StateM Workspace UInt32).run Sample.stray).2.output := by
  obtain ⟨notes, wanted, noted⟩ := notes_compile Sample.checked Sample.stray
  have output : ((run Sample.checking : StateM Workspace UInt32).run Sample.stray).2.output =
      report Sample.problems := by
    rw [run_invalid Sample.parse_checking Sample.compile_stray, noted, wanted rfl]
    exact String.empty_append
  refine ⟨Sample.compile_stray, ?_, ?_⟩
  · rw [output]
    decide +kernel
  · rw [output]
    exact not_reportsEach Sample.problems

end LearningStore.CommandLine
