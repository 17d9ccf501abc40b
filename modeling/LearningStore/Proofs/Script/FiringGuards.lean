import LearningStore.Proofs.Script.Batches
import LearningStore.Proofs.Script.Database

/-!
# Guards that fire

A script starts with guards: under a condition they raise an error and return.  The server returns
from the batch in which a guard stands, and the tool goes on with the next batch after an error.  So
a guard that fires keeps back what comes before the first line that ends a batch, and nothing else:
the functions of a schema are created all the same.
-/

namespace LearningStore.Script

open LearningStore.Schema
open LearningStore.Text

/-! ## Running batches -/

/-- The condition of the guard that rows start with, if they do: five rows that raise an error under
it and return. -/
def guardOf? : List (List Char) → Option String
  | head :: start :: error :: back :: stop :: _ =>
      if "IF ".toList.isPrefixOf head && trim start == "BEGIN".toList &&
          "RAISERROR(".toList.isPrefixOf (trim error) && trim back == "RETURN".toList &&
          trim stop == "END".toList then
        some (String.ofList (head.drop 3))
      else none
  | _ => none

/-- What is reached in a batch where some conditions hold: its rows from the first one on that is
neither idle nor part of a guard, or nothing if a guard before that fires.  The first rows are
passed over, as those of a guard that has been looked at are. -/
def reached? (holds : String → Bool) : Nat → List (List Char) → Option (List (List Char))
  | _, [] => some []
  | passed + 1, _ :: rest => reached? holds passed rest
  | 0, row :: rest =>
      if isIdle row then reached? holds 0 rest
      else
        match guardOf? (row :: rest) with
        | none => some (row :: rest)
        | some condition => if holds condition then none else reached? holds 4 rest

/-- A row that changes nothing outside of a transaction: an idle one, or the end of a
transaction. -/
def isInert (row : List Char) : Bool :=
  isIdle row || trim row == "COMMIT TRANSACTION".toList

/-- A server, by the conditions that hold in its states and by what the rows that are reached in a
batch make of them. -/
structure Server (σ : Type) where
  holds : σ → String → Bool
  inTransaction : σ → Bool
  perform : σ → List (List Char) → σ
  perform_inert : ∀ st rows, inTransaction st = false → (∀ row ∈ rows, isInert row = true) →
    perform st rows = st

namespace Server

variable {σ : Type}

/-- The state after a batch. -/
def send (server : Server σ) (st : σ) (batch : List (List Char)) : σ :=
  match reached? (server.holds st) 0 batch with
  | none => st
  | some rows => server.perform st rows

/-- The state after some batches, each of which is sent whatever came of the one before it. -/
def run (server : Server σ) (st : σ) (bs : List (List (List Char))) : σ :=
  bs.foldl server.send st

end Server

/-! ## Scripts that are stopped -/

/-- Some of the conditions hold. -/
def Fires (conditions : List String) (holds : String → Bool) : Prop :=
  ∃ c ∈ conditions, holds c = true

/-- Outside of a transaction a script leaves every server as it is where one of its guards fires. -/
def Stops (script : List Statement) (conditions : List String) : Prop :=
  ∀ (σ : Type) (server : Server σ) (st : σ), server.inTransaction st = false →
    Fires conditions (server.holds st) → server.run st (batches (scriptText script)) = st

/-- Nothing but inert rows is reached in the batches behind the first one. -/
def InertBehind (script : List Statement) (conditions : List String) : Prop :=
  ∀ holds, Fires conditions holds → ∀ batch ∈ (batches (scriptText script)).tail,
    ∀ rows, reached? holds 0 batch = some rows → ∀ row ∈ rows, isInert row = true

/-- A server that tells whether it has performed anything but inert rows. -/
def recorder (holds : String → Bool) : Server Bool where
  holds _ := holds
  inTransaction _ := false
  perform performed rows := performed || rows.any fun row => !isInert row
  perform_inert performed rows _ inert := by
    have none_awake : (rows.any fun row => !isInert row) = false := by
      rw [List.any_eq_false]
      intro row inside
      rw [inert row inside]
      exact Bool.false_ne_true
    rw [none_awake, Bool.or_false]

section Stopping

variable {σ : Type} {holds : String → Bool} {batch rows : List (List Char)} {row : List Char}

theorem run_recorder_true (bs : List (List (List Char))) : (recorder holds).run true bs = true := by
  induction bs with
  | nil => rfl
  | cons b rest ih =>
      have sent : (recorder holds).send true b = true := by
        unfold Server.send
        split
        next => rfl
        next rows _ => exact Bool.true_or (rows.any fun row => !isInert row)
      rw [Server.run, List.foldl_cons, sent]
      exact ih

theorem run_recorder {bs : List (List (List Char))} (member : batch ∈ bs)
    (reached : reached? holds 0 batch = some rows) (inside : row ∈ rows)
    (awake : isInert row = false) (performed : Bool) :
    (recorder holds).run performed bs = true := by
  induction bs generalizing performed with
  | nil => cases member
  | cons b rest ih =>
      rw [Server.run, List.foldl_cons]
      rcases List.mem_cons.mp member with rfl | later
      · have some_awake : (rows.any fun row => !isInert row) = true :=
          List.any_eq_true.mpr ⟨row, inside, by rw [awake]; rfl⟩
        have sent : (recorder holds).send performed batch = true := by
          have same : (recorder holds).send performed batch =
              (performed || rows.any fun row => !isInert row) := by
            rw [Server.send, show (recorder holds).holds performed = holds from rfl, reached]
            rfl
          rw [same, some_awake, Bool.or_true]
        rw [sent]
        exact run_recorder_true rest
      · exact ih later _

theorem Server.run_eq_self {server : Server σ} {st : σ} {bs : List (List (List Char))}
    (kept : ∀ batch ∈ bs, server.send st batch = st) : server.run st bs = st := by
  induction bs with
  | nil => rfl
  | cons b rest ih =>
      obtain ⟨here, later⟩ := List.forall_mem_cons.mp kept
      rw [Server.run, List.foldl_cons, here]
      exact ih later

/-- Where the first batch is kept back, all depends on what the others reach. -/
theorem stops_iff {script : List Statement} {conditions : List String}
    (kept : ∀ (σ : Type) (server : Server σ) (st : σ), Fires conditions (server.holds st) →
      server.run st (batches (scriptText script)) =
        server.run st (batches (scriptText script)).tail) :
    Stops script conditions ↔ InertBehind script conditions := by
  constructor
  · intro stops holds fires batch member rows reached row inside
    by_contra awake
    have untouched := stops Bool (recorder holds) false rfl fires
    have touched := run_recorder (List.mem_of_mem_tail member) reached inside
      (Bool.eq_false_iff.mpr awake) false
    rw [touched] at untouched
    cases untouched
  · intro inert σ server st outside fires
    rw [kept σ server st fires]
    refine Server.run_eq_self fun batch member => ?_
    unfold Server.send
    split
    next => rfl
    next rows reached =>
      exact server.perform_inert st rows outside (inert _ fires batch member rows reached)

end Stopping

/-! ## What batches reach -/

section Reached

variable {holds : String → Bool} {xs ys : List (List Char)}

theorem reached?_idle (idle : ∀ row ∈ xs, isIdle row = true) :
    reached? holds 0 (xs ++ ys) = reached? holds 0 ys := by
  induction xs with
  | nil => rfl
  | cons x xs ih =>
      obtain ⟨here, others⟩ := List.forall_mem_cons.mp idle
      rw [List.cons_append, reached?, if_pos here]
      exact ih others

theorem trim_word_append {word : List Char} (some_letter : word ≠ [])
    (solid : ∀ c ∈ word, isBlank c = false) (rest : List Char) :
    trim (word ++ rest) = word ++ trimEnd rest :=
  trim_solid_append some_letter (fun c here => solid c (List.mem_of_mem_head? here))
    (fun c here => solid c (List.mem_of_mem_getLast? here)) rest

/-- A row that begins with a word is not idle. -/
theorem isIdle_eq_false {word : List Char} (some_letter : word ≠ [])
    (solid : ∀ c ∈ word, isBlank c = false) (noDashes : departs word "--".toList = true)
    (rest : List Char) : isIdle (word ++ rest) = false := by
  rw [isIdle, trim_word_append some_letter solid, isPrefixOf_eq_false noDashes (by decide),
    Bool.or_false, List.isEmpty_eq_false_iff]
  exact List.append_ne_nil_of_left_ne_nil some_letter _

theorem reached?_statement {row : List Char} (idle : isIdle row = false)
    (unguarded : "IF ".toList.isPrefixOf row = false) :
    reached? holds 0 (row :: ys) = some (row :: ys) := by
  have none_here : guardOf? (row :: ys) = none := by
    unfold guardOf?
    split
    next same =>
      cases same
      rw [unguarded]
      rfl
    next => rfl
  rw [reached?, if_neg (ne_true_of_eq_false idle), none_here]

/-- A line with a text on one row is one row. -/
theorem rows_of_oneRow {l : Line} (row : OneRow l.text) (solid : l.text.toList ≠ [])
    (ends : l.text.toList.getLast? ≠ some '\r') :
    l.rows = [List.replicate (4 * l.level) ' ' ++ l.text.toList] := by
  have some_text : ¬l.text.isEmpty = true := by
    rw [String.isEmpty_iff, ← String.toList_eq_nil_iff]
    exact solid
  have shown : l.shown = List.replicate (4 * l.level) ' ' ++ l.text.toList := by
    rw [Line.shown, if_neg some_text, Line.indentation, String.toList_ofList]
  have plain : '\n' ∉ List.replicate (4 * l.level) ' ' ++ l.text.toList := by
    rw [List.mem_append, not_or]
    exact ⟨fun inside => absurd (List.eq_of_mem_replicate inside) (by decide), row⟩
  have last : (List.replicate (4 * l.level) ' ' ++ l.text.toList).getLast? ≠ some '\r' := by
    rw [List.getLast?_append_of_ne_nil _ solid]
    exact ends
  rw [Line.rows, shown, rows_single plain, List.map_singleton, withoutReturn, if_neg last]

/-- The call that raises the error of a guard. -/
def errorCall (message : String) : String :=
  "RAISERROR(N" ++ sqlString message ++ ",16,1)"

theorem toList_errorCall (message : String) : (errorCall message).toList =
    'R' :: ("AISERROR(N".toList ++ (sqlString message).toList ++ ",16,1".toList) ++ [')'] := by
  simp [errorCall, String.toList_append]

theorem rows_raiseIf {condition message : String} (conditionRow : OneLine condition.toList)
    (messageRow : OneRow message) :
    (Statement.raiseIf condition message).lines.flatMap Line.rows =
      ["IF ".toList ++ condition.toList, "BEGIN".toList,
        List.replicate 4 ' ' ++ (errorCall message).toList,
        List.replicate 4 ' ' ++ "RETURN".toList, "END".toList] := by
  have head : (line ("IF " ++ condition)).rows = ["IF ".toList ++ condition.toList] := by
    have spelled : ("IF " ++ condition).toList = "IF ".toList ++ condition.toList :=
      String.toList_append
    have whole : OneLine ("IF " ++ condition).toList := by
      rw [spelled, oneLine_append]
      exact ⟨by decide, conditionRow⟩
    have rows := rows_of_oneRow (l := line ("IF " ++ condition)) (oneRow_of_oneLine whole)
      (by simp [line]) whole.getLast?_ne
    exact rows.trans (congrArg (fun t => [t]) spelled)
  have error : Line.rows ⟨1, errorCall message⟩ =
      [List.replicate 4 ' ' ++ (errorCall message).toList] := by
    have whole : OneRow (errorCall message) :=
      ((by decide : OneRow "RAISERROR(N").append messageRow.sqlString).append (by decide)
    refine rows_of_oneRow (l := ⟨1, errorCall message⟩) whole ?_ ?_
    · rw [toList_errorCall]
      exact List.cons_ne_nil _ _
    · rw [toList_errorCall, List.getLast?_concat]
      decide
  have start : (line "BEGIN").rows = ["BEGIN".toList] := by decide
  have back : Line.rows ⟨1, "RETURN"⟩ = [List.replicate 4 ' ' ++ "RETURN".toList] := by decide
  have stop : (line "END").rows = ["END".toList] := by decide
  have listed : (Statement.raiseIf condition message).lines = [line ("IF " ++ condition),
      line "BEGIN", ⟨1, errorCall message⟩, ⟨1, "RETURN"⟩, line "END"] := rfl
  rw [listed]
  simp only [List.flatMap_cons, List.flatMap_nil, head, start, error, back, stop]
  rfl

/-- The rows of a guard are passed if its condition does not hold, and else nothing is reached. -/
theorem reached?_raiseIf {condition message : String} (conditionRow : OneLine condition.toList)
    (messageRow : OneRow message) :
    reached? holds 0 ((Statement.raiseIf condition message).lines.flatMap Line.rows ++ ys) =
      if holds condition then none else reached? holds 0 ys := by
  have error : trim (List.replicate 4 ' ' ++ (errorCall message).toList) =
      (errorCall message).toList := by
    have around := trim_around (b := []) (errorCall message).toList (blanks_replicate 4) nofun
    rw [List.append_nil] at around
    rw [around, toList_errorCall]
    exact trim_enclosed _ (by decide) (by decide)
  have call : "RAISERROR(".toList.isPrefixOf (errorCall message).toList = true := by
    rw [toList_errorCall]
    rfl
  have texts : trim "BEGIN".toList = "BEGIN".toList ∧
      trim (List.replicate 4 ' ' ++ "RETURN".toList) = "RETURN".toList ∧
      trim "END".toList = "END".toList := by decide
  have awake : isIdle ("IF ".toList ++ condition.toList) = false := by
    have word : isIdle (['I', 'F'] ++ ' ' :: condition.toList) = false :=
      isIdle_eq_false (by decide) (by decide) (by decide) _
    exact word
  have recognized :
      guardOf? ((Statement.raiseIf condition message).lines.flatMap Line.rows ++ ys) =
        some condition := by
    rw [rows_raiseIf conditionRow messageRow]
    simp only [List.cons_append, List.nil_append, guardOf?, error, call, texts, beq_self_eq_true,
      Bool.and_true]
    simp
  rw [rows_raiseIf conditionRow messageRow] at recognized ⊢
  simp only [List.cons_append, List.nil_append] at recognized ⊢
  rw [reached?, if_neg (ne_true_of_eq_false awake), recognized]
  rfl

theorem reached?_guard {condition message : String} (conditionRow : OneLine condition.toList)
    (messageRow : OneRow message) :
    reached? holds 0 (scriptRows [.raiseIf condition message, .blank] ++ ys) =
      if holds condition then none else reached? holds 0 ys := by
  have blank : ∀ r ∈ scriptRows [.blank], isIdle r = true := by
    rw [scriptRows]
    decide
  rw [scriptRows_cons, List.append_assoc, reached?_raiseIf conditionRow messageRow,
    reached?_idle blank]

/-- The condition of the guard that both scripts start with. -/
def masterCondition : String :=
  "DB_NAME()='master'"

theorem reached?_opening : reached? holds 0 (scriptRows (header ++ guardMaster) ++ ys) =
    if holds masterCondition then none else reached? holds 0 ys := by
  have idle : ∀ r ∈ scriptRows header, isIdle r = true := by
    rw [header, scriptRows_cons, scriptRows_cons, List.forall_mem_append, List.forall_mem_append]
    refine ⟨isIdle_comment (oneRow_ofList (by decide)), isIdle_comment (oneRow_ofList (by decide)),
      ?_⟩
    rw [scriptRows]
    decide
  have message : OneRow ("This script must not be run against the master database. Select a " ++
      "LearningStore database first.") :=
    (oneRow_ofList (by decide)).append (oneRow_ofList (by decide))
  rw [scriptRows_append, List.append_assoc, reached?_idle idle]
  exact reached?_guard (by decide) message

theorem reached?_upgradeOpening :
    reached? holds 0 (scriptRows (header ++ guardMaster ++ guardEmpty) ++ ys) =
      if holds masterCondition then none
      else if holds missingDocument then none else reached? holds 0 ys := by
  have message : OneRow
      ("This database has no Configuration table. Run the full init script instead of " ++
        "the upgrade script.") :=
    (oneRow_ofList (by decide)).append (oneRow_ofList (by decide))
  rw [scriptRows_append, List.append_assoc, reached?_opening]
  congr 1
  exact reached?_guard (by decide) message

end Reached

/-! ## Batches of scripts -/

section Batches

variable {xs ys y : List (List Char)} {zs : List (List (List Char))}

/-- Rows that end no batch belong to the batch that goes on behind them. -/
theorem splitOnP_append (open_rows : ∀ row ∈ xs, isGo row = false)
    (cut : ys.splitOnP isGo = y :: zs) : (xs ++ ys).splitOnP isGo = (xs ++ y) :: zs := by
  induction xs with
  | nil => exact cut
  | cons x xs ih =>
      obtain ⟨here, others⟩ := List.forall_mem_cons.mp open_rows
      rw [List.cons_append, List.splitOnP_cons_eq_if_modifyHead,
        if_neg (ne_true_of_eq_false here), ih others]
      rfl

/-- Statements that stay in their batch begin the first one, and what is behind the end of a batch
makes the last ones. -/
theorem exists_batches {opening : List Statement} (calm : Calm isLetter opening)
    (front behind : List Statement) : ∃ first between,
      batches (scriptText (opening ++ (front ++ .endBatch :: behind))) =
        (scriptRows opening ++ first) :: (between ++ (scriptRows behind).splitOnP isGo) := by
  obtain ⟨first, between, cut⟩ :=
    List.exists_cons_of_ne_nil (List.splitOnP_ne_nil isGo (scriptRows front))
  refine ⟨first, between, ?_⟩
  rw [batches, lines_scriptText, scriptRows_append, scriptRows_append, scriptRows_cons,
    rows_endBatch]
  refine splitOnP_append (fun row inside => (calm.steady endsAtBlanks_isLetter row inside).noGo) ?_
  rw [List.singleton_append, List.splitOnP_append_cons _ _ (by decide), cut, List.cons_append]

/-- A row that starts a statement with an effect. -/
structure Awake (row : List Char) : Prop where
  noGo : isGo row = false
  noIdle : isIdle row = false
  noGuard : "IF ".toList.isPrefixOf row = false
  noInert : isInert row = false

/-- A row that begins with a word starts a statement with an effect unless the word could be the
beginning of something else. -/
theorem awake_of_word {word : List Char} (some_letter : word ≠ [])
    (solid : ∀ c ∈ word, isBlank c = false)
    (other : ∀ w ∈ ["go", "--", "if ", "commit transaction"], departs word w.toList = true)
    (rest : List Char) : Awake (word ++ rest) := by
  simp only [List.forall_mem_cons] at other
  obtain ⟨noGo, noDashes, noGuard, noCommit, -⟩ := other
  have first : word.head?.any (!isBlank ·) = true := by
    obtain ⟨c, cs, rfl⟩ := List.exists_cons_of_ne_nil some_letter
    rw [List.head?_cons, Option.any_some, solid c List.mem_cons_self]
    rfl
  have noIdle := isIdle_eq_false some_letter solid noDashes rest
  refine ⟨isGo_of_departs first noGo rest, noIdle, isPrefixOf_eq_false noGuard (by decide) rest, ?_⟩
  rw [isInert, noIdle, trim_word_append some_letter solid, Bool.false_or, beq_eq_false_iff_ne]
  intro same
  have commit : "COMMIT TRANSACTION".toList.map lowerLetter = "commit transaction".toList := by
    decide
  have ends : word ++ trimEnd rest = "COMMIT TRANSACTION".toList ++ [] := by
    rw [same, List.append_nil]
  rw [departs_eq_false ends commit] at noCommit
  cases noCommit

theorem awake_declare (rest : List Char) : Awake ("DECLARE".toList ++ rest) :=
  awake_of_word (by decide) (by decide) (by decide) rest

/-- Whatever conditions hold, the first row that is reached in a batch starts with a text. -/
def Reaches (start : List Char) (batch : List (List Char)) : Prop :=
  ∀ holds, ∃ row rest, reached? holds 0 batch = some (row :: rest) ∧ start <+: row

/-- A statement behind a blank line and a comment is reached. -/
theorem exists_reaches {about : String} {st : Statement} {row start : List Char}
    {later : List (List Char)} (aboutRow : OneRow about)
    (listed : st.lines.flatMap Line.rows = row :: later) (awake : Awake row)
    (begins : start <+: row) (rest : List Statement) : ∃ batch others,
      (scriptRows (.blank :: .comment about :: st :: rest)).splitOnP isGo = batch :: others ∧
        Reaches start batch := by
  have blank : ∀ r ∈ Statement.blank.lines.flatMap Line.rows, isIdle r = true := by decide
  obtain ⟨front, joined⟩ : ∃ front, front = Statement.blank.lines.flatMap Line.rows ++
      (Statement.comment about).lines.flatMap Line.rows := ⟨_, rfl⟩
  have idle : ∀ r ∈ front, isIdle r = true := by
    rw [joined]
    exact List.forall_mem_append.mpr ⟨blank, isIdle_comment aboutRow⟩
  obtain ⟨y, others, cut⟩ := List.exists_cons_of_ne_nil
    (List.splitOnP_ne_nil isGo (later ++ scriptRows rest))
  have single : ([row] ++ (later ++ scriptRows rest)).splitOnP isGo = ([row] ++ y) :: others :=
    splitOnP_append (List.forall_mem_singleton.mpr awake.noGo) cut
  refine ⟨front ++ row :: y, others, ?_, fun holds => ⟨row, y, ?_, begins⟩⟩
  · rw [scriptRows_cons, scriptRows_cons, scriptRows_cons, listed, ← List.append_assoc, ← joined]
    refine splitOnP_append (fun r inside => ?_) single
    have steady : Steady isLetter r := steady_of_isIdle (idle r inside)
    exact steady.noGo
  · rw [reached?_idle idle]
    exact reached?_statement awake.noIdle awake.noGuard

/-- What goes on behind a text that does not end in a carriage return. -/
theorem withoutReturn_append {a : List Char} (ends : a.getLast? ≠ some '\r') (b : List Char) :
    ∃ e, withoutReturn (a ++ b) = a ++ e := by
  cases b using List.reverseRecOn with
  | nil =>
      rw [List.append_nil, withoutReturn, if_neg ends]
      exact ⟨[], (List.append_nil a).symm⟩
  | append_singleton b c =>
      rw [withoutReturn, ← List.append_assoc]
      split
      next => exact ⟨b, List.dropLast_concat⟩
      next => exact ⟨b ++ [c], List.append_assoc a b [c]⟩

/-- How the creation of a function begins. -/
def creationOf (f : SqlFunction) : String :=
  "CREATE FUNCTION " ++ bracketed f.name ++ "("

theorem creationOf_eq (f : SqlFunction) :
    creationOf f = "CREATE FUNCTION " ++ bracketed f.name ++ "(" := rfl

theorem toList_creationOf (f : SqlFunction) : (creationOf f).toList =
    "CREATE".toList ++ (" FUNCTION ".toList ++ (bracketed f.name).toList) ++ ['('] := by
  have word : "CREATE FUNCTION ".toList = "CREATE".toList ++ " FUNCTION ".toList := by decide
  have mark : "(".toList = ['('] := by decide
  calc (creationOf f).toList
      = "CREATE FUNCTION ".toList ++ (bracketed f.name).toList ++ "(".toList := by
        rw [creationOf_eq, String.toList_append]
        exact congrArg (· ++ "(".toList) String.toList_append
    _ = "CREATE".toList ++ " FUNCTION ".toList ++ (bracketed f.name).toList ++ ['('] :=
        congrArg₂ (fun a b => a ++ (bracketed f.name).toList ++ b) word mark
    _ = _ := by rw [List.append_assoc "CREATE".toList]

theorem awake_creationOf (f : SqlFunction) (rest : List Char) :
    Awake ((creationOf f).toList ++ rest) := by
  rw [toList_creationOf, List.append_assoc, List.append_assoc]
  exact awake_of_word (by decide) (by decide) (by decide) _

theorem exists_toList_header (f : SqlFunction) :
    ∃ parameters, f.header.toList = (creationOf f).toList ++ parameters := by
  have key : "(@UserKey nvarchar(250)" = "(" ++ "@UserKey nvarchar(250)" := by decide
  have header : f.header = "CREATE FUNCTION " ++ bracketed f.name ++
      ("(" ++ "@UserKey nvarchar(250)") ++
      String.join (f.parameters.map FunctionParameter.text) ++ ")" :=
    congrArg (fun start => "CREATE FUNCTION " ++ bracketed f.name ++ start ++
      String.join (f.parameters.map FunctionParameter.text) ++ ")") key
  refine ⟨("@UserKey nvarchar(250)" ++
    (String.join (f.parameters.map FunctionParameter.text) ++ ")")).toList, ?_⟩
  rw [← String.toList_append, header, creationOf_eq]
  simp only [String.append_assoc]

theorem exists_rows_function {f : SqlFunction} (name : OneRow f.name) : ∃ row later,
    (Statement.createFunction f).lines.flatMap Line.rows = row :: later ∧ Awake row ∧
      (creationOf f).toList <+: row := by
  have front : OneRow (creationOf f) :=
    ((oneRow_ofList (by decide) : OneRow "CREATE FUNCTION ").append (oneRow_bracketed name)).append
      (oneRow_ofList (by decide))
  have ends : (creationOf f).toList.getLast? ≠ some '\r' := by
    rw [toList_creationOf, List.getLast?_concat]
    decide
  obtain ⟨parameters, header⟩ := exists_toList_header f
  obtain ⟨r, rs, cut⟩ := exists_cons_of_rows parameters
  obtain ⟨e, kept⟩ := withoutReturn_append ends r
  have first : (line f.header).rows = ((creationOf f).toList ++ e) :: rs.map withoutReturn := by
    rw [Line.rows_line, header, rows_append_of_notMem front cut, List.map_cons, kept]
  refine ⟨(creationOf f).toList ++ e, rs.map withoutReturn ++ f.body.lines.flatMap Line.rows,
    ?_, awake_creationOf f e, List.prefix_append _ e⟩
  rw [Statement.lines, SqlFunction.lines, List.flatMap_cons, first, List.cons_append]

/-- The creation of each of some functions is reached in a batch of its own. -/
theorem exists_created {ds : List Described}
    (named : ∀ d ∈ ds, OneRow d.purpose ∧ OneRow d.function.name) (back : List Statement) :
    ∀ d ∈ ds, ∃ batch ∈ (scriptRows (.blank :: (ds.flatMap createFunction ++ back))).splitOnP isGo,
      Reaches (creationOf d.function).toList batch := by
  induction ds with
  | nil => exact nofun
  | cons first ds ih =>
      obtain ⟨⟨purpose, name⟩, others⟩ := List.forall_mem_cons.mp named
      have listed : .blank :: ((first :: ds).flatMap createFunction ++ back) =
          [.blank, .comment first.purpose, .createFunction first.function, .endBatch,
            .grant (permissionOf first.function) first.function.name] ++
          .endBatch :: (.blank :: (ds.flatMap createFunction ++ back)) := by
        rw [List.flatMap_cons, createFunction_eq, grantFunction]
        simp
      intro d inside
      rcases List.mem_cons.mp inside with rfl | later
      · obtain ⟨row, lines, created, awake, begins⟩ := exists_rows_function name
        obtain ⟨batch, rest, cut, reaches⟩ := exists_reaches purpose created awake begins
          ([.endBatch, .grant (permissionOf d.function) d.function.name] ++
            .endBatch :: (.blank :: (ds.flatMap createFunction ++ back)))
        refine ⟨batch, ?_, reaches⟩
        rw [listed]
        exact cut ▸ List.mem_cons_self
      · obtain ⟨batch, member, reaches⟩ := ih others d later
        refine ⟨batch, ?_, reaches⟩
        rw [listed, scriptRows_append, scriptRows_cons .endBatch, rows_endBatch,
          List.singleton_append, List.splitOnP_append_cons _ _ (by decide)]
        exact List.mem_append_right _ member

end Batches

/-! ## Scripts that go on -/

/-- What a script does where one of its guards fires: all but the first batch is sent, and each of
some functions is created. -/
structure GoesOn (script : List Statement) (conditions : List String) (created : List Described) :
    Prop where
  run : ∀ (σ : Type) (server : Server σ) (st : σ), Fires conditions (server.holds st) →
    server.run st (batches (scriptText script)) = server.run st (batches (scriptText script)).tail
  creates : ∀ d ∈ created, ∃ batch ∈ (batches (scriptText script)).tail,
    Reaches (creationOf d.function).toList batch
  stops : Stops script conditions ↔ InertBehind script conditions

theorem goesOn {opening : List Statement} {conditions : List String} {ds : List Described}
    (calm : Calm isLetter opening)
    (guarded : ∀ holds more, Fires conditions holds →
      reached? holds 0 (scriptRows opening ++ more) = none)
    (named : ∀ d ∈ ds, OneRow d.purpose ∧ OneRow d.function.name) (front back : List Statement) :
    GoesOn (opening ++ (front ++ .endBatch :: .blank :: (ds.flatMap createFunction ++ back)))
      conditions ds := by
  obtain ⟨first, between, cut⟩ := exists_batches calm front
    (.blank :: (ds.flatMap createFunction ++ back))
  have kept (σ : Type) (server : Server σ) (st : σ) (fires : Fires conditions (server.holds st)) :
      server.run st (batches (scriptText (opening ++
        (front ++ .endBatch :: .blank :: (ds.flatMap createFunction ++ back))))) =
      server.run st (batches (scriptText (opening ++
        (front ++ .endBatch :: .blank :: (ds.flatMap createFunction ++ back))))).tail := by
    have sent : server.send st (scriptRows opening ++ first) = st := by
      rw [Server.send, guarded _ first fires]
    rw [cut, Server.run, List.foldl_cons, sent]
    rfl
  refine ⟨kept, fun d inside => ?_, stops_iff kept⟩
  obtain ⟨batch, member, reaches⟩ := exists_created named back d inside
  exact ⟨batch, by rw [cut]; exact List.mem_append_right _ member, reaches⟩

/-- A statement with an effect that is reached behind the first batch is not stopped. -/
theorem not_inertBehind {script : List Statement} {conditions : List String} {start : List Char}
    {batch : List (List Char)} (some_guard : conditions ≠ [])
    (member : batch ∈ (batches (scriptText script)).tail) (reaches : Reaches start batch)
    (awake : ∀ rest, Awake (start ++ rest)) : ¬InertBehind script conditions := by
  intro inert
  obtain ⟨c, cs, rfl⟩ := List.exists_cons_of_ne_nil some_guard
  obtain ⟨row, rest, reached, e, rfl⟩ := reaches fun _ => true
  have quiet := inert (fun _ => true) ⟨c, List.mem_cons_self, rfl⟩ batch member _ reached _
    List.mem_cons_self
  rw [(awake e).noInert] at quiet
  cases quiet

section Scripts

variable {s : Schema} {script : List Statement}

theorem goesOn_init (valid : s.Valid) (made : init s = .ok script) :
    GoesOn script [masterCondition] (functions s true) := by
  obtain ⟨document, constraints, -, -, rfl⟩ := init_eq_batches made
  have guarded (holds : String → Bool) (more : List (List Char))
      (fires : Fires [masterCondition] holds) :
      reached? holds 0 (scriptRows (header ++ guardMaster) ++ more) = none := by
    obtain ⟨c, listed, fired⟩ := fires
    obtain rfl := List.mem_singleton.mp listed
    rw [reached?_opening, if_pos fired]
  have goes := goesOn calm_opening guarded (oneRow_functions valid true)
    (sessionSettings ++ snippets s.sqlBefore ++
      [.comment "Create the table holding the engine version and the schema document",
        .createConfiguration, .setDocument document, .insertConfiguration, .blank] ++ createRole ++
      s.enums.flatMap enumTable ++ s.itemTypes.flatMap itemTypeTable ++ constraints.flatten)
    (lastBatch s ++ closeBatch)
  simpa [firstBatch, initFront, closeBatch, createFunctions] using goes

theorem goesOn_upgrade (valid : s.Valid) (made : upgrade s = .ok script) :
    GoesOn script [masterCondition, missingDocument] (functions s false) := by
  obtain ⟨views, rights, -, -, rfl⟩ := upgrade_eq_batches made
  have calm : Calm isLetter (header ++ guardMaster ++ guardEmpty) :=
    (calm_append.mp (calm_append.mp calm_upgradeOpening).1).1
  have guarded (holds : String → Bool) (more : List (List Char))
      (fires : Fires [masterCondition, missingDocument] holds) :
      reached? holds 0 (scriptRows (header ++ guardMaster ++ guardEmpty) ++ more) = none := by
    obtain ⟨c, listed, fired⟩ := fires
    rw [reached?_upgradeOpening]
    rcases List.mem_pair.mp listed with rfl | rfl
    · rw [if_pos fired]
    · rw [if_pos fired, ite_self]
  have goes := goesOn calm guarded (oneRow_functions valid false)
    (sessionSettings ++ dropFunctions ++ closeBatch ++ upgradeChanges s (views ++ rights))
    ([.commit] ++ closeBatch)
  simpa [upgradeOpening, closeBatch, createFunctions] using goes

/-- The first statement of the second batch of an upgrade. -/
theorem exists_declared (made : upgrade s = .ok script) :
    ∃ batch ∈ (batches (scriptText script)).tail, Reaches "DECLARE".toList batch := by
  obtain ⟨views, rights, -, -, rfl⟩ := upgrade_eq_batches made
  have about : OneRow "Replace the view, right and security information in the schema document" :=
    oneRow_ofList (by decide)
  have listed : Statement.declareCommand.lines.flatMap Line.rows =
      ["DECLARE".toList ++ " @command varchar(max)".toList] := by decide
  obtain ⟨rest, begins⟩ : ∃ rest, closeBatch ++ (upgradeChanges s (views ++ rights) ++
      (closeBatch ++ (createFunctions s false ++ ([.commit] ++ closeBatch)))) =
      .endBatch :: .blank ::
        .comment "Replace the view, right and security information in the schema document" ::
          .declareCommand :: rest := ⟨_, rfl⟩
  obtain ⟨batch, others, cut, reaches⟩ := exists_reaches about listed (awake_declare _)
    (List.prefix_append _ _) rest
  refine ⟨batch, ?_, reaches⟩
  rw [begins, batches_of_calm endsAtBlanks_isLetter calm_upgradeOpening, cut]
  exact List.mem_cons_self

end Scripts

/-- The guards of both scripts keep back the first batch alone.  Whatever stands behind it is sent,
each function of the schema is created, and nothing is left out there but what is inert.  So an
upgrade is never stopped, and the creation of a store is stopped only for schemas without
functions. -/
theorem goesOn_of_finished {s : Schema} (finished : s.Finished) : ∃ first next,
    init s = .ok first ∧ upgrade s = .ok next ∧
      GoesOn first [masterCondition] (functions s true) ∧
      GoesOn next [masterCondition, missingDocument] (functions s false) ∧
      (functions s true ≠ [] → ¬Stops first [masterCondition]) ∧
      ¬Stops next [masterCondition, missingDocument] := by
  obtain ⟨d, sound, complete, rfl⟩ := finished.drafts
  have valid := sound.valid complete
  obtain ⟨first, made⟩ := succeeds_init valid
  obtain ⟨next, upgraded⟩ := succeeds_upgrade valid
  have creating := goesOn_init valid made
  have upgrading := goesOn_upgrade valid upgraded
  refine ⟨first, next, made, upgraded, creating, upgrading, fun some_function => ?_, ?_⟩
  · obtain ⟨f, fs, listed⟩ := List.exists_cons_of_ne_nil some_function
    obtain ⟨batch, member, reaches⟩ := creating.creates f (listed ▸ List.mem_cons_self)
    rw [creating.stops]
    exact not_inertBehind (List.cons_ne_nil _ _) member reaches (awake_creationOf f.function)
  · obtain ⟨batch, member, reaches⟩ := exists_declared upgraded
    rw [upgrading.stops]
    exact not_inertBehind (List.cons_ne_nil _ _) member reaches awake_declare

theorem goesOn_sample : Sample.schema.Finished ∧ ∃ first next,
    init Sample.schema = .ok first ∧ upgrade Sample.schema = .ok next ∧
      GoesOn first [masterCondition] (functions Sample.schema true) ∧
      GoesOn next [masterCondition, missingDocument] (functions Sample.schema false) ∧
      (functions Sample.schema true ≠ [] → ¬Stops first [masterCondition]) ∧
      ¬Stops next [masterCondition, missingDocument] :=
  ⟨Sample.schema_finished, goesOn_of_finished Sample.schema_finished⟩

namespace Sample

/-- A file with a right that is granted to everyone. -/
def grantedFile : List Char :=
  (Schema.Sample.opening ++
    ["<Right Name=\"Feed\">", "<Grant>", "<Expression>1</Expression>", "</Grant>", "</Right>",
      "</StoreSchema>"]).flatMap String.toList

def grantedSchema : Schema :=
  ⟨[], [], [], [⟨"Feed", [], ["1"], {}, false⟩], [], []⟩

theorem grantedSchema_finished : grantedSchema.Finished :=
  finished_of_schemaOf? grantedFile "granted.xml" false
    (schemaOf?_of_spelledOut (by repeat constructor) (by decide +kernel))

def feedFunction : Described :=
  ⟨"Create the function that checks the Feed right", ⟨"Feed", [], .granted ["1"]⟩⟩

theorem functions_grantedSchema : functions grantedSchema true = [feedFunction] := by
  decide

end Sample

/-- In the database of the server itself the function of a right is created all the same, and the
recording server has performed something in the end. -/
theorem unstopped_sample : Sample.grantedSchema.Finished ∧ ∃ first,
    init Sample.grantedSchema = .ok first ∧
      (∃ batch ∈ (batches (scriptText first)).tail,
        Reaches "CREATE FUNCTION [Feed](".toList batch) ∧
      (recorder (· == masterCondition)).run false (batches (scriptText first)) = true ∧
      ¬Stops first [masterCondition] := by
  have finished := Sample.grantedSchema_finished
  obtain ⟨d, sound, complete, same⟩ := finished.drafts
  have valid : Sample.grantedSchema.Valid := same ▸ sound.valid complete
  obtain ⟨first, made⟩ := succeeds_init valid
  have creating := goesOn_init valid made
  have listed : Sample.feedFunction ∈ functions Sample.grantedSchema true := by
    rw [Sample.functions_grantedSchema]
    exact List.mem_cons_self
  obtain ⟨batch, member, reaches⟩ := creating.creates Sample.feedFunction listed
  have awake := awake_creationOf Sample.feedFunction.function
  refine ⟨finished, first, made, ⟨batch, member, reaches⟩, ?_, ?_⟩
  · obtain ⟨row, rest, reached, e, rfl⟩ := reaches (· == masterCondition)
    exact run_recorder (List.mem_of_mem_tail member) reached List.mem_cons_self (awake e).noInert
      false
  · rw [creating.stops]
    exact not_inertBehind (List.cons_ne_nil _ _) member reaches awake

end LearningStore.Script
