import LearningStore.Proofs.Script.Capacity
import LearningStore.Proofs.Script.Evolution

/-!
# How long commands may be

An init script adds every record to the variable that holds the document, so nothing is cut off
of it.  An upgrade puts the command that adds a view or a right together from literals alone.
Such a command is whole as long as its literals fit together.  A longer one loses its end, and
with it the apostrophe that closes the query, so the upgrade stops there.
-/

namespace LearningStore.Script

open LearningStore.Schema
open LearningStore.Text
open LearningStore.Xml

/-! ## Commands -/

/-- The characters that take one byte in every code page. -/
def isAscii (c : Char) : Bool :=
  decide (c.toNat < 128)

namespace Record

variable {r : Record}

/-- The literals from which the command that adds a record is put together. -/
def commandTexts (r : Record) : List String :=
  insertFront :: r.markup.start :: (r.otherTags ++ [insertBack])

/-- What reaches the variable of the command that adds a record. -/
def heldCommand (r : Record) : String :=
  (Sql.sumOfLiterals r.commandTexts).text

/-- Whether the command reaches its variable as it is meant. -/
def CommandWhole (r : Record) : Prop :=
  r.heldCommand = modifyCommand (insertQuery r)

/-- Whether the literals of the command fit together. -/
def CommandFits (r : Record) : Prop :=
  Sql.totalLength r.commandTexts ≤ Sql.capacity

instance (r : Record) : Decidable r.CommandFits :=
  inferInstanceAs (Decidable (_ ≤ _))

theorem join_commandTexts (r : Record) :
    String.join r.commandTexts = modifyCommand (insertQuery r) :=
  (modifyCommand_insertQuery r).symm

theorem totalLength_commandTexts (r : Record) :
    Sql.totalLength r.commandTexts = (modifyCommand (insertQuery r)).length := by
  rw [← join_commandTexts, String.length_join]
  rfl

theorem commandWhole_iff (r : Record) : r.CommandWhole ↔
    Sql.totalLength (Sql.smallFront r.commandTexts) ≤ Sql.capacity := by
  rw [CommandWhole, ← join_commandTexts]
  exact Sql.text_sumOfLiterals_eq_iff r.commandTexts

theorem commandFits_iff (r : Record) :
    r.CommandFits ↔ Sql.AllSmall r.commandTexts ∧ r.CommandWhole := by
  rw [CommandWhole, ← join_commandTexts]
  exact Sql.totalLength_le_iff r.commandTexts

/-- A command has as many bytes as characters. -/
theorem Simple.ascii_commandTexts (simple : r.Simple) :
    ∀ text ∈ r.commandTexts, Over isAscii text := by
  have tag {text : String} (words : Over isDocumentChar text) : Over isAscii text :=
    words.mono fun _ each => decide_eq_true (toNat_lt_of_isDocumentChar each)
  have members : ∀ text ∈ r.members.map Markup.empty, Over isAscii text := by
    intro text inside
    obtain ⟨m, member, rfl⟩ := List.mem_map.mp inside
    exact tag (simple.members m member).over_empty
  have others : ∀ text ∈ r.otherTags ++ [insertBack], Over isAscii text := by
    refine List.forall_mem_append.mpr ⟨List.forall_mem_append.mpr ⟨members, ?_⟩, ?_⟩
    · exact List.forall_mem_singleton.mpr (tag simple.markup.over_stop)
    · exact List.forall_mem_singleton.mpr (by decide)
  exact List.forall_mem_cons.mpr ⟨by decide,
    List.forall_mem_cons.mpr ⟨tag simple.markup.over_start, others⟩⟩

end Record

/-! ## Statements on a server that cuts sums -/

section Evaluation

variable {vs : Sql.Variables}

/-- The statements that add a record leave in the variable, and run, what is not cut off. -/
theorem evaluateSized_insertRecord (r : Record)
    (declared : (vs.lookup commandVariable).isSome = true) :
    Sql.evaluateSized vs (renderLines (Statement.insertRecord r).lines) =
      some (vs.set commandVariable (some r.heldCommand), [.execute r.heldCommand]) := by
  have value : Sql.sizedSum? vs ((insertSum r).1 :: (insertSum r).2) =
      some (some (Sql.sumOfLiterals r.commandTexts)) :=
    Sql.sizedSum?_literals vs r.commandTexts
  have assigned : (Sql.Command.assign commandVariable
      ((insertSum r).1 :: (insertSum r).2)).runSized vs =
      some (vs.set commandVariable (some r.heldCommand), []) := by
    rw [Sql.Command.runSized, value]
    exact if_pos declared
  have executed : (Sql.Command.execute commandVariable).runSized
      (vs.set commandVariable (some r.heldCommand)) =
      some (vs.set commandVariable (some r.heldCommand), [.execute r.heldCommand]) := by
    rw [Sql.Command.runSized, Sql.Command.run, Sql.Variables.lookup_set _ declared]
    · rfl
    · simp
  rw [Sql.evaluateSized_of_commands (scansTo_insertRecord r) (commands?_insertTokens r)]
  simp only [Sql.runSizedCommands, assigned, executed]
  rfl

theorem evaluateSized_insertRecord_eq_none (r : Record)
    (undeclared : (vs.lookup commandVariable).isSome = false) :
    Sql.evaluateSized vs (renderLines (Statement.insertRecord r).lines) = none := by
  have refused : (Sql.Command.assign commandVariable
      ((insertSum r).1 :: (insertSum r).2)).runSized vs = none := by
    rw [Sql.Command.runSized]
    cases Sql.sizedSum? vs ((insertSum r).1 :: (insertSum r).2) with
    | none => rfl
    | some value => exact if_neg (by simp [undeclared])
  rw [Sql.evaluateSized_of_commands (scansTo_insertRecord r) (commands?_insertTokens r)]
  simp only [Sql.runSizedCommands, refused]

/-- A whole command is put together as on a server that does not cut. -/
theorem evaluateSized_insertRecord_of_whole {r : Record} (whole : r.CommandWhole) :
    Sql.evaluateSized vs (renderLines (Statement.insertRecord r).lines) =
      Sql.evaluate vs (renderLines (Statement.insertRecord r).lines) := by
  refine Sql.evaluateSized_eq (scansTo_insertRecord r) (commands?_insertTokens r)
    (List.forall_mem_cons.mpr ⟨Sql.uncut_assign fun vs => ?_,
      List.forall_mem_singleton.mpr fun _ => rfl⟩)
  have sized := Sql.sizedSum?_literals vs r.commandTexts
  have unlimited := Sql.sum?_literals vs r.commandTexts
  rw [r.join_commandTexts, ← whole] at unlimited
  exact (congrArg (Option.map (Option.map Sql.Sized.text)) sized).trans unlimited.symm

theorem evaluateSized_modifyCommand {query : String} (plain : '\'' ∉ query.toList) :
    Sql.evaluateSized vs (modifyCommand query) = Sql.evaluate vs (modifyCommand query) :=
  Sql.evaluateSized_eq (scan_modifyCommand plain) (commands?_modifyTokens query)
    (List.forall_mem_singleton.mpr fun _ => rfl)

/-- The sums of a document are a literal by itself and sums that start from the variable. -/
theorem uncut_assignSum (rs : List Record) : ∀ sum ∈ documentSums rs, (assignSum sum).Uncut := by
  have added (os : List Sql.Operand) : (assignSum (.word schemaVariable, os)).Uncut :=
    Sql.uncut_assign fun vs => Sql.sizedSum?_word vs schemaVariable os
  refine List.forall_mem_cons.mpr ⟨fun _ => rfl, List.forall_mem_append.mpr ⟨?_, ?_⟩⟩
  · intro sum inside
    obtain ⟨r, -, rfl⟩ := List.mem_map.mp inside
    exact added _
  · exact List.forall_mem_singleton.mpr (added _)

/-- Nothing is cut off of a document. -/
theorem evaluateSized_documentLines (rs : List Record) :
    Sql.evaluateSized vs (renderLines (documentLines rs)) =
      Sql.evaluate vs (renderLines (documentLines rs)) := by
  refine Sql.evaluateSized_eq (scansTo_documentLines rs) (commands?_documentTokens rs)
    (List.forall_mem_cons.mpr ⟨fun _ => rfl, List.forall_mem_map.mpr ?_⟩)
  exact uncut_assignSum rs

/-- What is left of a command that is cut: the front, and what there is room for behind it. -/
theorem toList_kept_modifyCommand {query : String}
    (long : Sql.capacity < (modifyCommand query).length) :
    ∃ n, n < query.toList.length + 2 ∧ (Sql.kept (modifyCommand query)).toList =
      modifyFront.toList ++ (query.toList ++ ['\'', ')']).take n := by
  have fits : modifyFront.toList.length ≤ Sql.capacity := by
    decide
  have back : modifyBack.toList = ['\'', ')'] := by
    decide
  have spelled : (modifyCommand query).toList =
      modifyFront.toList ++ (query.toList ++ ['\'', ')']) := by
    rw [modifyCommand, String.toList_append, String.toList_append, back, List.append_assoc]
  obtain ⟨n, room⟩ : ∃ n, Sql.capacity = modifyFront.toList.length + n :=
    Nat.exists_eq_add_of_le fits
  refine ⟨n, ?_, ?_⟩
  · rw [← String.length_toList, spelled, List.length_append, List.length_append, room] at long
    simp only [List.length_cons, List.length_nil] at long
    omega
  · rw [Sql.kept, String.toList_ofList, spelled, room, List.take_append,
      Nat.add_sub_cancel_left, List.take_of_length_le (Nat.le_add_right _ n)]

/-- A command that is cut is no command: what it lacks is the apostrophe that closes the query
or, at the least, the parenthesis behind that. -/
theorem evaluateSized_kept {query : String} (plain : '\'' ∉ query.toList)
    (long : Sql.capacity < (modifyCommand query).length) :
    Sql.evaluateSized vs (Sql.kept (modifyCommand query)) = none := by
  obtain ⟨n, short, spelled⟩ := toList_kept_modifyCommand long
  by_cases inside : n ≤ query.toList.length
  · have unclosed : (Sql.Mode.literal []).scan ((query.toList ++ ['\'', ')']).take n) =
        ([], .literal (query.toList.take n)) := by
      rw [List.take_append_of_le_length inside]
      exact Sql.Mode.scan_literal [] fun member => plain (List.mem_of_mem_take member)
    rw [Sql.evaluateSized, Sql.tokens?, spelled, Sql.Mode.scan_trans scan_modifyFront unclosed]
    rfl
  · have last : n = query.toList.length + 1 := by omega
    have closed : (Sql.Mode.literal []).scan ((query.toList ++ ['\'', ')']).take n) =
        ([], .closing query.toList) := by
      rw [last, List.take_length_add_append]
      exact Sql.Mode.scan_trans (Sql.Mode.scan_literal [] plain) rfl
    rw [Sql.evaluateSized, Sql.tokens?, spelled, Sql.Mode.scan_trans scan_modifyFront closed]
    simp only [Sql.Mode.finish, Option.map_some, Option.bind_some, List.append_nil,
      List.cons_append, List.nil_append]
    rw [Sql.commands?]
    rfl

end Evaluation

/-! ## Runs on a server that cuts sums -/

namespace Database

/-- Do what a batch asks for. -/
def performSized (db : Database) : Sql.Effect → Except Failure Database
  | .modify query => db.modify query
  | .execute command =>
      match Sql.evaluateSized [] command with
      | none => .error .badBatch
      | some (_, effects) => effects.foldlM modifyOnly db

/-- Run the text of statements. -/
def runTextSized (db : Database) (text : String) : Except Failure Database :=
  match Sql.evaluateSized db.batch text with
  | none => .error .badBatch
  | some (vs, effects) => effects.foldlM performSized { db with batch := vs }

end Database

/-- Run a statement on a server that cuts sums.  There are sums of texts only in the statements
that put a document or a command together. -/
def Statement.runSized (db : Database) : Statement → Except Failure Database
  | setDocument rs => db.runTextSized (renderLines (setDocument rs).lines)
  | insertRecord r => db.runTextSized (renderLines (insertRecord r).lines)
  | st => st.run db

/-- Run the statements of a script in order on a server that cuts sums. -/
def runScriptSized (db : Database) (script : List Statement) : Except Failure Database :=
  script.foldlM Statement.runSized db

theorem runScriptSized_cons {db next : Database} {st : Statement} {rest : List Statement}
    (first : st.runSized db = .ok next) :
    runScriptSized db (st :: rest) = runScriptSized next rest := by
  rw [runScriptSized, List.foldlM_cons, first]
  rfl

section Statements

variable (db : Database)

theorem runSized_setDocument (rs : List Record) :
    (Statement.setDocument rs).runSized db = (Statement.setDocument rs).run db := by
  have sized : (Statement.setDocument rs).runSized db =
      db.runTextSized (renderLines (documentLines rs)) := rfl
  have unlimited : (Statement.setDocument rs).run db =
      db.runText (renderLines (documentLines rs)) := rfl
  rw [sized, unlimited, Database.runTextSized, Database.runText, evaluateSized_documentLines]
  cases ran : Sql.evaluate db.batch (renderLines (documentLines rs)) with
  | none => rfl
  | some after =>
      have silent : after.2 = [] := by
        rw [Sql.evaluate, Sql.tokens?_eq_some (scansTo_documentLines rs), Option.bind_some,
          commands?_documentTokens, Option.bind_some] at ran
        refine Sql.effects_eq_nil (List.forall_mem_cons.mpr ⟨?_, List.forall_mem_map.mpr ?_⟩) ran
        · intro vs later declared
          rw [Sql.Command.run] at declared
          split at declared
          next => cases declared
          next =>
            cases declared
            rfl
        · intro sum _ vs later assigned
          exact Sql.Command.silent_assign assigned
      simp only [silent, List.foldlM_nil]

theorem runSized_insertRecord_of_whole {r : Record} (simple : r.Simple) (whole : r.CommandWhole) :
    (Statement.insertRecord r).runSized db = (Statement.insertRecord r).run db := by
  have sized : (Statement.insertRecord r).runSized db =
      db.runTextSized (renderLines (Statement.insertRecord r).lines) := rfl
  have unlimited : (Statement.insertRecord r).run db =
      db.runText (renderLines (Statement.insertRecord r).lines) := rfl
  rw [sized, unlimited, Database.runTextSized, Database.runText,
    ← evaluateSized_insertRecord_of_whole whole]
  cases declared : (db.batch.lookup commandVariable).isSome with
  | false => rw [evaluateSized_insertRecord_eq_none r declared]
  | true =>
      have command : Sql.evaluateSized [] r.heldCommand = Sql.evaluate [] r.heldCommand := by
        rw [whole]
        exact evaluateSized_modifyCommand (insertQuery_plain simple)
      have performed (db : Database) : db.performSized (.execute r.heldCommand) =
          db.perform (.execute r.heldCommand) :=
        congrArg (fun ran : Option (Sql.Variables × List Sql.Effect) => match ran with
          | none => Except.error Failure.badBatch
          | some (_, effects) => effects.foldlM Database.modifyOnly db) command
      rw [evaluateSized_insertRecord r declared]
      simp only [List.foldlM_cons, List.foldlM_nil, performed]

/-- A command that is cut stops the script, whatever the database holds. -/
theorem runSized_insertRecord_of_cut {r : Record} (simple : r.Simple)
    (small : Sql.AllSmall r.commandTexts) (cut : ¬ r.CommandWhole) :
    (Statement.insertRecord r).runSized db = .error .badBatch := by
  have sized : (Statement.insertRecord r).runSized db =
      db.runTextSized (renderLines (Statement.insertRecord r).lines) := rfl
  rw [sized, Database.runTextSized]
  cases declared : (db.batch.lookup commandVariable).isSome with
  | false => rw [evaluateSized_insertRecord_eq_none r declared]
  | true =>
      have longer : Sql.capacity < (modifyCommand (insertQuery r)).length := by
        rw [← r.totalLength_commandTexts]
        exact Nat.lt_of_not_le fun fits => cut (r.commandFits_iff.mp fits).2
      have refused : Sql.evaluateSized [] (Sql.kept (modifyCommand (insertQuery r))) = none :=
        evaluateSized_kept (insertQuery_plain simple) longer
      rw [← r.join_commandTexts, ← Sql.text_sumOfLiterals_of_allSmall small] at refused
      rw [evaluateSized_insertRecord r declared]
      simp only [List.foldlM_cons, Database.performSized]
      rw [Record.heldCommand, refused]
      rfl

end Statements

/-! ## Scripts on a server that cuts sums -/

/-- The record that a statement adds. -/
def Statement.inserted? : Statement → Option Record
  | insertRecord r => some r
  | _ => none

/-- The records that a script adds to the stored document, in order. -/
def inserted (script : List Statement) : List Record :=
  script.filterMap Statement.inserted?

theorem mem_inserted {script : List Statement} {r : Record} :
    r ∈ inserted script ↔ .insertRecord r ∈ script := by
  rw [inserted, List.mem_filterMap]
  constructor
  · rintro ⟨st, member, added⟩
    cases st with
    | insertRecord r =>
        cases added
        exact member
    | _ => cases added
  · exact fun member => ⟨_, member, rfl⟩

theorem mem_inserted_cons {script : List Statement} {r : Record} (st : Statement)
    (inside : r ∈ inserted script) : r ∈ inserted (st :: script) :=
  mem_inserted.mpr (List.mem_cons_of_mem st (mem_inserted.mp inside))

theorem inserted_append (a b : List Statement) : inserted (a ++ b) = inserted a ++ inserted b :=
  List.filterMap_append

theorem Passive.inserted_eq {script : List Statement} (passive : Passive script) :
    inserted script = [] := by
  refine List.filterMap_eq_nil_iff.mpr fun st inside => ?_
  have each := passive st inside
  cases st with
  | insertRecord => cases each
  | _ => rfl

/-- Whole commands aside, no statement puts together what could be cut. -/
theorem runSized_eq {st : Statement}
    (whole : ∀ r, st = .insertRecord r → r.Simple ∧ r.CommandWhole) (db : Database) :
    st.runSized db = st.run db := by
  cases st with
  | setDocument rs => exact runSized_setDocument db rs
  | insertRecord r =>
      obtain ⟨simple, same⟩ := whole r rfl
      exact runSized_insertRecord_of_whole db simple same
  | _ => rfl

/-- A script of whole commands runs as on a server that does not cut. -/
theorem runScriptSized_eq {script : List Statement}
    (whole : ∀ r ∈ inserted script, r.Simple ∧ r.CommandWhole) (db : Database) :
    runScriptSized db script = runScript db script := by
  induction script generalizing db with
  | nil => rfl
  | cons st rest ih =>
      have first : st.runSized db = st.run db := by
        refine runSized_eq (fun r same => whole r ?_) db
        exact mem_inserted.mpr (same ▸ List.mem_cons_self)
      have others := ih fun r inside => whole r (mem_inserted_cons st inside)
      rw [runScriptSized, runScript, List.foldlM_cons, List.foldlM_cons, first]
      cases st.run db with
      | error failure => rfl
      | ok next => exact others next

/-- A script with a command that is cut stops there, even if it runs on a server that does not
cut. -/
theorem runScriptSized_stops {script : List Statement}
    (known : ∀ r ∈ inserted script,
      r.Simple ∧ (r.CommandWhole ∨ Sql.AllSmall r.commandTexts))
    (cut : ∃ r ∈ inserted script, ¬ r.CommandWhole) {db last : Database}
    (run : runScript db script = .ok last) : runScriptSized db script = .error .badBatch := by
  induction script generalizing db with
  | nil =>
      obtain ⟨r, inside, -⟩ := cut
      cases inside
  | cons st rest ih =>
      by_cases here : ∃ r, st = .insertRecord r ∧ ¬ r.CommandWhole
      · obtain ⟨r, rfl, short⟩ := here
        obtain ⟨simple, other⟩ := known r (mem_inserted.mpr List.mem_cons_self)
        have small := other.resolve_left short
        rw [runScriptSized, List.foldlM_cons, runSized_insertRecord_of_cut db simple small short]
        rfl
      · have first : st.runSized db = st.run db := by
          refine runSized_eq (fun r same => ⟨?_, ?_⟩) db
          · exact (known r (mem_inserted.mpr (same ▸ List.mem_cons_self))).1
          · exact not_not.mp fun short => here ⟨r, same, short⟩
        have later : ∃ r ∈ inserted rest, ¬ r.CommandWhole := by
          obtain ⟨r, inside, short⟩ := cut
          rcases List.mem_cons.mp (mem_inserted.mp inside) with same | behind
          · exact absurd ⟨r, same.symm, short⟩ here
          · exact ⟨r, mem_inserted.mpr behind, short⟩
        rw [runScript, List.foldlM_cons] at run
        cases ran : st.run db with
        | error failure =>
            rw [ran] at run
            cases run
        | ok next =>
            rw [ran] at run
            rw [runScriptSized_cons (first.trans ran)]
            exact ih (fun r inside => known r (mem_inserted_cons st inside)) later run

/-! ## The scripts of a schema -/

variable {s s₀ : Schema}

theorem inserted_createFunctions (ds : List Described) :
    inserted (ds.flatMap createFunction) = [] := by
  refine List.filterMap_eq_nil_iff.mpr fun st inside => ?_
  obtain ⟨d, -, member⟩ := List.mem_flatMap.mp inside
  simp only [createFunction, List.mem_cons, List.not_mem_nil, or_false] at member
  rcases member with rfl | rfl | rfl | rfl | rfl | rfl <;> rfl

/-- A script that creates a store adds no record by a command. -/
theorem inserted_init {script : List Statement} (made : init s = .ok script) :
    inserted script = [] := by
  obtain ⟨document, constraints, -, constrained, rfl⟩ := init_eq_ok made
  have front : inserted (initFront s) = [] := by
    simp only [initFront, inserted_append, passive_header.inserted_eq,
      passive_sessionSettings.inserted_eq, (passive_snippets _).inserted_eq]
    rfl
  have middle : inserted (initMiddle s constraints) = [] := by
    have parts : initMiddle s constraints = [.insertConfiguration, .blank] ++
        (createRole ++ s.enums.flatMap enumTable ++ s.itemTypes.flatMap itemTypeTable ++
          constraints.flatten) ++ closeBatch := by
      simp [initMiddle]
    rw [parts, inserted_append, inserted_append, (passive_tables constrained).inserted_eq]
    rfl
  have back : inserted (initBack s) = [] := by
    simp only [initBack, inserted_append, (passive_snippets _).inserted_eq]
    rfl
  have document_only : inserted (.setDocument document :: initMiddle s constraints) =
      inserted (initMiddle s constraints) := rfl
  rw [inserted_append, inserted_append, inserted_append, front, document_only, middle, back,
    createFunctions, inserted_createFunctions]
  rfl

/-- An upgrade adds the records of views and rights. -/
theorem inserted_upgrade {script : List Statement} (made : upgrade s = .ok script) :
    ∃ views rights, s.views.mapM (viewRecord s) = .ok views ∧
      s.rights.mapM (rightRecord s) = .ok rights ∧ inserted script = views ++ rights := by
  obtain ⟨views, rights, viewsMade, rightsMade, rfl⟩ := upgrade_eq_ok made
  refine ⟨views, rights, viewsMade, rightsMade, ?_⟩
  have guards : inserted (insertGuards s) = [] := by
    refine List.filterMap_eq_nil_iff.mpr fun st inside => ?_
    obtain ⟨i, -, found⟩ := List.mem_flatMap.mp inside
    obtain ⟨entry, -, rfl⟩ := List.mem_map.mp found
    rfl
  have front : inserted upgradeFront = [] := rfl
  have closing : inserted closeBatch = [] ∧ inserted commit = [] := ⟨rfl, rfl⟩
  have added : inserted ((views ++ rights).map .insertRecord) = views ++ rights := by
    rw [inserted, List.filterMap_map]
    exact List.filterMap_some
  rw [inserted_append, inserted_append, inserted_append, inserted_append, inserted_append, front,
    guards, added, closing.1, closing.2, createFunctions, inserted_createFunctions]
  simp

/-- What the scripts for a store and an upgrade of it add by commands. -/
theorem inserted_both {creation script : List Statement} (created : init s₀ = .ok creation) :
    inserted (creation ++ script) = inserted script := by
  rw [inserted_append, inserted_init created, List.nil_append]

theorem simple_inserted (valid : s.Valid) {script : List Statement}
    (made : upgrade s = .ok script) : ∀ r ∈ inserted script, r.Simple := by
  obtain ⟨views, rights, viewsMade, rightsMade, added⟩ := inserted_upgrade made
  rw [added]
  exact List.forall_mem_append.mpr
    ⟨forall_mem_of_mapM viewsMade fun v member _ each => simple_viewRecord valid member each,
      forall_mem_of_mapM rightsMade fun r member _ each => simple_rightRecord valid member each⟩

/-- Both scripts of a schema write the same views and rights. -/
theorem inserted_eq_recordsNamed {rs : List Record} (document : IsDocument s₀ s rs)
    {script : List Statement} (made : upgrade s = .ok script) :
    inserted script = recordsNamed "View" rs ++ recordsNamed "Right" rs := by
  obtain ⟨views, rights, viewsMade, rightsMade, added⟩ := inserted_upgrade made
  obtain ⟨-, views', rights', -, viewsMade', rightsMade', -, -, ofViews, ofRights, -⟩ :=
    document.kinds
  cases viewsMade.symm.trans viewsMade'
  cases rightsMade.symm.trans rightsMade'
  rw [added, ofViews, ofRights]

/-- The views and the rights of a document are those of the last schema. -/
theorem IsDocument.recordsNamed_eq {s₁ : Schema} {a b : List Record} (ha : IsDocument s₀ s a)
    (hb : IsDocument s₁ s b) : recordsNamed "View" a = recordsNamed "View" b ∧
      recordsNamed "Right" a = recordsNamed "Right" b := by
  obtain ⟨-, views, rights, -, viewsMade, rightsMade, -, -, ofViews, ofRights, -⟩ := ha.kinds
  obtain ⟨-, views', rights', -, viewsMade', rightsMade', -, -, ofViews', ofRights', -⟩ :=
    hb.kinds
  cases viewsMade.symm.trans viewsMade'
  cases rightsMade.symm.trans rightsMade'
  exact ⟨ofViews.trans ofViews'.symm, ofRights.trans ofRights'.symm⟩

/-- A store can be created on a server that cuts sums, and has the document that is meant. -/
theorem runScriptSized_init (valid : s.Valid) (h : s.Named) {script : List Statement}
    (made : init s = .ok script) {rs : List Record} (document : IsDocument s s rs) :
    ∃ db, runScriptSized .fresh script = .ok db ∧ db.document = some rs := by
  obtain ⟨db, run, doc, stored, rfl⟩ := upgraded_init valid h made
  have same : runScriptSized .fresh script = runScript .fresh script := by
    refine runScriptSized_eq ?_ .fresh
    simp [inserted_init made]
  exact ⟨_, same.trans run, congrArg some (stored.unique document)⟩

/-! ## Commands of finished schemas -/

/-- What becomes of the commands of an upgrade, and of the views and the rights that they add.
The upgrade is for a schema whose own store gets the records for its document, and the store
that it meets was created for any schema. -/
structure CommandsReach (creation initial script : List Statement) (rs : List Record) :
    Prop where
  document : Sql.evaluateSized [] (renderLines (Statement.setDocument rs).lines) =
    some ([(schemaVariable, some (documentText rs))], [])
  stored : ∃ db, runScriptSized .fresh initial = .ok db ∧ db.document = some rs
  added : inserted script = recordsNamed "View" rs ++ recordsNamed "Right" rs
  spelled : ∀ r ∈ inserted script,
    (Sql.tokens? (renderLines (Statement.insertRecord r).lines)).bind Sql.commands? =
      some [.assign commandVariable (r.commandTexts.map .literal), .execute commandVariable]
  ascii : ∀ r ∈ inserted script, ∀ text ∈ r.commandTexts, Over isAscii text
  held : ∀ r ∈ inserted script, ∀ before,
    Sql.evaluateSized [(commandVariable, before)]
      (renderLines (Statement.insertRecord r).lines) =
        some ([(commandVariable, some r.heldCommand)], [.execute r.heldCommand])
  fits_iff : ∀ r ∈ inserted script,
    r.CommandFits ↔ Sql.AllSmall r.commandTexts ∧ r.CommandWhole
  whole_iff : ∀ r ∈ inserted script,
    r.CommandWhole ↔ Sql.totalLength (Sql.smallFront r.commandTexts) ≤ Sql.capacity
  replaces : (∀ r ∈ inserted script, r.CommandWhole) →
    ∃ db doc, runScriptSized .fresh (creation ++ script) = .ok db ∧ db.document = some doc ∧
      recordsNamed "View" doc = recordsNamed "View" rs ∧
      recordsNamed "Right" doc = recordsNamed "Right" rs
  stops : (∀ r ∈ inserted script, r.CommandWhole ∨ Sql.AllSmall r.commandTexts) →
    (∃ r ∈ inserted script, ¬ r.CommandWhole) →
      runScriptSized .fresh (creation ++ script) = .error .badBatch

/-- The init script of every finished schema stores its document whole.  The upgrade to it
replaces views and rights as far as no command is cut, and stops at one that is. -/
theorem commandsReach_of_finished (first : s₀.Finished) (second : s.Finished) :
    ∃ creation initial script rs, init s₀ = .ok creation ∧ init s = .ok initial ∧
      .setDocument rs ∈ initial ∧ upgrade s = .ok script ∧
      CommandsReach creation initial script rs := by
  obtain ⟨creation, script, db, created, made, run, doc, upgraded, rfl⟩ :=
    upgraded_of_finished first second
  obtain ⟨valid, named⟩ := wellFormed_of_finished second
  obtain ⟨initial, initialMade⟩ := succeeds_init valid
  obtain ⟨rs, constraints, recorded, -, parts⟩ := init_eq_ok initialMade
  have document : IsDocument s s rs := records_eq_storeRecords named recorded
  have simple := simple_inserted valid made
  have both : inserted (creation ++ script) = inserted script := inserted_both created
  refine ⟨creation, initial, script, rs, created, initialMade, by simp [parts], made, ?_⟩
  constructor
  case document => exact (evaluateSized_documentLines rs).trans (evaluate_documentLines rs)
  case stored => exact runScriptSized_init valid named initialMade document
  case added => exact inserted_eq_recordsNamed document made
  case spelled =>
    intro r _
    rw [Sql.tokens?_eq_some (scansTo_insertRecord r)]
    exact commands?_insertTokens r
  case ascii => exact fun r inside => (simple r inside).ascii_commandTexts
  case held => exact fun r _ before => evaluateSized_insertRecord r rfl
  case fits_iff => exact fun r _ => r.commandFits_iff
  case whole_iff => exact fun r _ => r.commandWhole_iff
  case replaces =>
    intro whole
    have same : runScriptSized .fresh (creation ++ script) =
        runScript .fresh (creation ++ script) := by
      refine runScriptSized_eq ?_ .fresh
      rw [both]
      exact fun r inside => ⟨simple r inside, whole r inside⟩
    exact ⟨_, doc, same.trans run, rfl, upgraded.recordsNamed_eq document⟩
  case stops =>
    intro known cut
    refine runScriptSized_stops ?_ ?_ run
    · rw [both]
      exact fun r inside => ⟨simple r inside, known r inside⟩
    · rw [both]
      exact cut

theorem commandsReach_sample : Sample.baseSchema.Finished ∧ Sample.schema.Finished ∧
    ∃ creation initial script rs, init Sample.baseSchema = .ok creation ∧
      init Sample.schema = .ok initial ∧ .setDocument rs ∈ initial ∧
      upgrade Sample.schema = .ok script ∧ CommandsReach creation initial script rs :=
  ⟨Sample.baseSchema_finished, Sample.schema_finished,
    commandsReach_of_finished Sample.baseSchema_finished Sample.schema_finished⟩

namespace Sample

/-- A file with a view of many columns. -/
def broadFile : List Char :=
  (Schema.Sample.opening ++ ["<View Name=\"Wide\">", "<Columns>"] ++
    List.replicate 170 "<Column Name=\"Id\" Type=\"Int32\"/>" ++
    ["</Columns>", "<Implementation>SELECT 1", "</Implementation>", "</View>",
      "</StoreSchema>"]).flatMap String.toList

def broadColumn : Column :=
  { name := "Id", valueType := .int32, itemTypeName := none, enumName := none
    documentation := {}, inBase := false, owner := "Wide" }

def broadView : View :=
  ⟨"Wide", List.replicate 170 broadColumn, [], "SELECT 1", [], {}, false⟩

def broadSchema : Schema :=
  ⟨[], [], [broadView], [], [], []⟩

def broadRecord : Record :=
  ⟨⟨"View", [("Name", "Wide"), ("Function", "Wide")]⟩, List.replicate 170
    ⟨"Column", [("Name", "Id"), ("TypeCode", "9"), ("Nullable", "true")]⟩⟩

theorem broadSchema_finished : broadSchema.Finished :=
  finished_of_schemaOf? broadFile "broad.xml" false
    (schemaOf?_of_spelledOut (by repeat constructor) (by decide +kernel))

theorem viewRecord_broadView : viewRecord broadSchema broadView = .ok broadRecord := by
  refine eq_ok_of_toOption ?_
  decide +kernel

theorem allSmall_broadRecord : Sql.AllSmall broadRecord.commandTexts := by
  decide +kernel

theorem not_fits_broadRecord : ¬ broadRecord.CommandFits := by
  decide +kernel

end Sample

/-- A view with so many columns that its command is cut.  A new store for the schema has the
view, but an upgrade to the schema stops. -/
theorem commands_cut_sample : Sample.emptySchema.Finished ∧ Sample.broadSchema.Finished ∧
    ∃ creation initial script db doc, init Sample.emptySchema = .ok creation ∧
      init Sample.broadSchema = .ok initial ∧ upgrade Sample.broadSchema = .ok script ∧
      inserted script = [Sample.broadRecord] ∧ ¬ Sample.broadRecord.CommandFits ∧
      ¬ Sample.broadRecord.CommandWhole ∧ runScriptSized .fresh initial = .ok db ∧
      db.document = some doc ∧ recordsNamed "View" doc = [Sample.broadRecord] ∧
      runScriptSized .fresh (creation ++ script) = .error .badBatch := by
  have first := Sample.emptySchema_finished
  have second := Sample.broadSchema_finished
  obtain ⟨creation, script, _, created, made, run, -⟩ := upgraded_of_finished first second
  obtain ⟨valid, named⟩ := wellFormed_of_finished second
  obtain ⟨initial, initialMade⟩ := succeeds_init valid
  obtain ⟨rs, -, recorded, -⟩ := init_eq_ok initialMade
  have document : IsDocument _ _ rs := records_eq_storeRecords named recorded
  obtain ⟨db, stored, holds⟩ := runScriptSized_init valid named initialMade document
  obtain ⟨-, views, rights, -, viewsMade, rightsMade, -, -, ofViews, ofRights, -⟩ :=
    document.kinds
  have onlyView : recordsNamed "View" rs = [Sample.broadRecord] := by
    have one : Sample.broadSchema.views = [Sample.broadView] := rfl
    have listed : Sample.broadSchema.views.mapM (viewRecord Sample.broadSchema) =
        .ok [Sample.broadRecord] := by
      rw [one, List.mapM_cons, Sample.viewRecord_broadView]
      rfl
    exact ofViews.trans (Except.ok.inj (viewsMade.symm.trans listed))
  have noRight : recordsNamed "Right" rs = [] :=
    ofRights.trans (Except.ok.inj rightsMade).symm
  have added := inserted_eq_recordsNamed document made
  rw [onlyView, noRight, List.append_nil] at added
  have cut : ¬ Sample.broadRecord.CommandWhole := fun whole => Sample.not_fits_broadRecord
    (Sample.broadRecord.commandFits_iff.mpr ⟨Sample.allSmall_broadRecord, whole⟩)
  refine ⟨first, second, creation, initial, script, db, rs, created, initialMade, made, added,
    Sample.not_fits_broadRecord, cut, stored, holds, onlyView, ?_⟩
  have simple := simple_inserted valid made
  rw [added] at simple
  refine runScriptSized_stops ?_ ⟨Sample.broadRecord, ?_, cut⟩ run
  · rw [inserted_both created, added]
    exact List.forall_mem_singleton.mpr
      ⟨simple _ List.mem_cons_self, .inr Sample.allSmall_broadRecord⟩
  · rw [inserted_both created, added]
    exact List.mem_cons_self

end LearningStore.Script
