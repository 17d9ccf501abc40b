import LearningStore.Proofs.Script.Evaluation

/-!
# Texts are put together

Running the statements that put a document together leaves its text in the variable, and the
commands that change the stored document ask for the change that they spell, whether they
stand in the script or are put together in a variable first.
-/

namespace LearningStore.Script

open LearningStore.Text
open LearningStore.Xml (Markup)
open Sql

/-! ## Lines -/

/-- Lines hold whole tokens. -/
def ScansTo (ls : List Line) (ts : List Token) : Prop :=
  Mode.between.scan (renderLines ls).toList = (ts, .between)

namespace ScansTo

variable {a b : List Line} {ts us : List Token}

theorem nil : ScansTo [] [] := rfl

theorem append (first : ScansTo a ts) (second : ScansTo b us) : ScansTo (a ++ b) (ts ++ us) := by
  have rendered : (renderLines (a ++ b)).toList =
      (renderLines a).toList ++ (renderLines b).toList := by
    simp [renderLines, String.toList_join]
  unfold ScansTo
  rw [rendered]
  exact Mode.scan_trans first second

theorem flatMap {α : Type} {xs : List α} {f : α → List Line} {g : α → List Token}
    (each : ∀ x ∈ xs, ScansTo (f x) (g x)) : ScansTo (xs.flatMap f) (xs.flatMap g) := by
  induction xs with
  | nil => exact nil
  | cons x rest ih =>
      obtain ⟨first, others⟩ := List.forall_mem_cons.mp each
      rw [List.flatMap_cons, List.flatMap_cons]
      exact first.append (ih others)

end ScansTo

/-- The blanks before a line and the line feed after it are no tokens. -/
theorem scansTo_line (level : Nat) {text : String} {ts : List Token} (solid : text ≠ "")
    (scanned : Mode.between.scan (text.toList ++ ['\n']) = (ts, .between)) :
    ScansTo [⟨level, text⟩] ts := by
  have blanks (n : Nat) : Mode.between.scan (List.replicate n ' ') = ([], .between) := by
    induction n with
    | zero => rfl
    | succ n ih =>
        have first : Mode.between.scan [' '] = ([], .between) := rfl
        exact Mode.scan_trans first ih
  have rendered : (renderLines [⟨level, text⟩]).toList =
      List.replicate (4 * level) ' ' ++ (text.toList ++ ['\n']) := by
    have present : text.isEmpty = false := by simpa using solid
    simp [renderLines, Line.render, Line.indentation, present]
  unfold ScansTo
  rw [rendered]
  exact Mode.scan_trans (blanks (4 * level)) scanned

/-- A line that ends in a quoted text. -/
theorem scansTo_quoted (level : Nat) (front : String) {text : String} {ts : List Token}
    (scanned : Mode.between.scan front.toList = (ts, .between)) :
    ScansTo [⟨level, front ++ sqlString text⟩] (ts ++ [.operand (.literal text)]) := by
  refine scansTo_line level ?_ ?_
  · intro empty
    have characters := congrArg String.toList empty
    simp [sqlString] at characters
  · have last : (Mode.closing text.toList).scan ['\n'] =
        ([.operand (.literal (String.ofList text.toList))], .between) := rfl
    rw [String.ofList_toList] at last
    rw [String.toList_append, List.append_assoc]
    exact Mode.scan_trans scanned (Mode.scan_trans (Mode.scan_sqlString text) last)

/-- A quoted text with a plus sign behind it. -/
theorem scansTo_plus (level : Nat) (text : String) :
    ScansTo [⟨level, sqlString text ++ " +"⟩] [.operand (.literal text), .sign '+'] := by
  refine scansTo_line level ?_ ?_
  · intro empty
    have characters := congrArg String.toList empty
    simp [sqlString] at characters
  · have last : (Mode.closing text.toList).scan (" +".toList ++ ['\n']) =
        ([.operand (.literal (String.ofList text.toList)), .sign '+'], .between) := rfl
    rw [String.ofList_toList] at last
    rw [String.toList_append, List.append_assoc]
    exact Mode.scan_trans (Mode.scan_sqlString text) last

/-! ## Records -/

namespace Record

/-- The tags of a record behind its first one. -/
def otherTags (r : Record) : List String :=
  r.members.map Markup.empty ++ [r.markup.stop]

theorem text_eq (r : Record) : r.text = String.join (r.markup.start :: r.otherTags) := by
  rw [← String.toList_inj]
  simp [text, otherTags, String.toList_join]

/-- The tokens of a record in a script. -/
def tokens (r : Record) : List Token :=
  sumTokens (.literal r.markup.start) (r.otherTags.map .literal)

/-- A plus sign after every literal but the last is a plus sign before every one but the
first. -/
theorem plus_after_eq_plus_before (first last : String) (texts : List String) :
    [Token.operand (.literal first), .sign '+'] ++
        texts.flatMap (fun text => [.operand (.literal text), .sign '+']) ++
        [.operand (.literal last)] =
      sumTokens (.literal first) ((texts ++ [last]).map .literal) := by
  induction texts generalizing first with
  | nil => rfl
  | cons text rest ih =>
      have later := congrArg ([Token.operand (.literal first), .sign '+'] ++ ·) (ih text)
      simpa [sumTokens] using later

/-- The lines of a record hold its tags as a sum of literals, however far they are indented. -/
theorem scansTo_lines (r : Record) (levels : Nat) :
    ScansTo (indentedBy levels r.lines) r.tokens := by
  have listed : indentedBy levels r.lines =
      [⟨levels, sqlString r.markup.start ++ " +"⟩] ++
        (r.members.map Markup.empty).flatMap
          (fun tag => [(⟨1 + levels, sqlString tag ++ " +"⟩ : Line)]) ++
        [⟨levels, "" ++ sqlString r.markup.stop⟩] := by
    simp [lines, indentedBy, indented, line, List.flatMap_map, ← List.map_eq_flatMap]
  have members : ScansTo
      ((r.members.map Markup.empty).flatMap
        fun tag => [(⟨1 + levels, sqlString tag ++ " +"⟩ : Line)])
      ((r.members.map Markup.empty).flatMap
        fun tag => [.operand (.literal tag), .sign '+']) :=
    .flatMap fun tag _ => scansTo_plus (1 + levels) tag
  rw [listed, tokens, otherTags, ← plus_after_eq_plus_before]
  exact ((scansTo_plus levels r.markup.start).append members).append
    (scansTo_quoted levels "" rfl)

end Record

/-! ## Documents -/

/-- The tokens in front of a sum that is assigned to a variable. -/
def setTokens (name : String) : List Token :=
  [.operand (.word "SET"), .operand (.word name), .sign '=']

/-- The tokens of assignments to a variable. -/
def assignTokens (name : String) (sums : List (Operand × List Operand)) : List Token :=
  sums.flatMap fun sum => setTokens name ++ sumTokens sum.1 sum.2

theorem commands?_assignTokens (name : String) (sums : List (Operand × List Operand)) :
    commands? (assignTokens name sums) =
      some (sums.map fun sum => .assign name (sum.1 :: sum.2)) := by
  induction sums with
  | nil =>
      rw [assignTokens, List.flatMap_nil, commands?]
      rfl
  | cons sum rest ih =>
      have ended : ∀ t ∈ (assignTokens name rest).head?, t ≠ .sign '+' := by
        cases rest with
        | nil => simp [assignTokens]
        | cons => simp [assignTokens, setTokens]
      have read := commands?_assign name sum.1 sum.2 ended
      rw [ih] at read
      exact read

/-- The variable in which a document is put together. -/
def schemaVariable : String := "@schema"

/-- What is added to the variable for a record: itself, and the tags. -/
def recordSum (r : Record) : Operand × List Operand :=
  (.word schemaVariable, .literal r.markup.start :: r.otherTags.map .literal)

/-- What the variable gets first: the start of the document. -/
def startSum : Operand × List Operand :=
  (.literal storeMarkup.start, [])

/-- What is added to it last: the end of the document. -/
def stopSum : Operand × List Operand :=
  (.word schemaVariable, [.literal storeMarkup.stop])

/-- The sums that are assigned to the variable. -/
def documentSums (rs : List Record) : List (Operand × List Operand) :=
  startSum :: (rs.map recordSum ++ [stopSum])

/-- The assignment of a sum to the variable. -/
def assignSum (sum : Operand × List Operand) : Command :=
  .assign schemaVariable (sum.1 :: sum.2)

def declareTokens (name : String) : List Token :=
  [.operand (.word "DECLARE"), .operand (.word name), .operand (.word "varchar"), .sign '(',
    .operand (.word "max"), .sign ')']

theorem scansTo_documentLines (rs : List Record) : ScansTo (documentLines rs)
    (declareTokens schemaVariable ++ assignTokens schemaVariable (documentSums rs)) := by
  have declared : ScansTo [line "DECLARE @schema varchar(max)"]
      (declareTokens schemaVariable) :=
    scansTo_line 0 (by decide) (by decide)
  have first : ScansTo [line ("SET @schema = " ++ sqlString "<StoreSchema>")]
      (assignTokens schemaVariable [startSum]) := by
    have spelled : storeMarkup.start = "<StoreSchema>" := rfl
    have front : Mode.between.scan "SET @schema = ".toList =
        (setTokens schemaVariable, .between) := by
      decide
    rw [startSum, spelled]
    exact scansTo_quoted 0 _ front
  have each (r : Record) : ScansTo (line "SET @schema = @schema +" :: indented r.lines)
      (assignTokens schemaVariable [recordSum r]) := by
    have front : ScansTo [line "SET @schema = @schema +"]
        (setTokens schemaVariable ++ [.operand (.word schemaVariable), .sign '+']) :=
      scansTo_line 0 (by decide) (by decide)
    have both := front.append (r.scansTo_lines 1)
    simpa [assignTokens, recordSum, Record.tokens, sumTokens, indented] using both
  have last : ScansTo [line ("SET @schema = @schema + " ++ sqlString "</StoreSchema>")]
      (assignTokens schemaVariable [stopSum]) := by
    have spelled : storeMarkup.stop = "</StoreSchema>" := rfl
    have front : Mode.between.scan "SET @schema = @schema + ".toList =
        (setTokens schemaVariable ++ [.operand (.word schemaVariable), .sign '+'], .between) := by
      decide
    rw [stopSum, spelled]
    exact scansTo_quoted 0 _ front
  have whole := ((declared.append first).append (.flatMap fun r (_ : r ∈ rs) => each r)).append
    last
  simpa [documentLines, documentSums, assignTokens, List.flatMap_map] using whole

/-- Declare the variable and assign the sums to it. -/
theorem commands?_documentTokens (rs : List Record) :
    commands? (declareTokens schemaVariable ++ assignTokens schemaVariable (documentSums rs)) =
      some (.declare schemaVariable :: (documentSums rs).map assignSum) := by
  have declared (ts : List Token) : command? (declareTokens schemaVariable ++ ts) =
      some (.declare schemaVariable, ts) := rfl
  rw [commands?_of_command? (declared _), commands?_assignTokens]
  rfl

/-- Add texts to what the one variable of a batch holds. -/
theorem run_assign_self (text : String) (texts : List String) :
    (assignSum (.word schemaVariable, texts.map .literal)).run [(schemaVariable, some text)] =
      some ([(schemaVariable, some (text ++ String.join texts))], []) := by
  have value : sum? [(schemaVariable, some text)]
      (.word schemaVariable :: texts.map .literal) =
      some (some (text ++ String.join texts)) := by
    rw [sum?, sum?_literals]
    rfl
  rw [assignSum, Command.run, value]
  rfl

/-- The statements for a document leave its text in the variable and ask for nothing. -/
theorem evaluate_documentLines (rs : List Record) :
    evaluate [] (renderLines (documentLines rs)) =
      some ([(schemaVariable, some (documentText rs))], []) := by
  have added (text : String) : runCommands [(schemaVariable, some text)]
      ((rs.map recordSum ++ [stopSum]).map assignSum) =
      some ([(schemaVariable,
        some (text ++ String.join (rs.map Record.text) ++ storeMarkup.stop))], []) := by
    induction rs generalizing text with
    | nil =>
        have last := run_assign_self text [storeMarkup.stop]
        rw [String.join_cons, String.join_nil, String.append_empty] at last
        rw [List.map_nil, List.map_nil, String.join_nil, String.append_empty]
        exact runCommands_cons last rfl
    | cons r rest ih =>
        have assigned := run_assign_self text (r.markup.start :: r.otherTags)
        rw [← r.text_eq] at assigned
        rw [List.map_cons, List.map_cons, String.join_cons, ← String.append_assoc]
        exact runCommands_cons assigned (ih (text ++ r.text))
  have declared : (Command.declare schemaVariable).run [] =
      some ([(schemaVariable, none)], []) := rfl
  have opened : (assignSum startSum).run [(schemaVariable, none)] =
      some ([(schemaVariable, some storeMarkup.start)], []) := rfl
  have run : runCommands [] (.declare schemaVariable :: (documentSums rs).map assignSum) =
      some ([(schemaVariable, some (documentText rs))], []) :=
    runCommands_cons declared (runCommands_cons opened (added storeMarkup.start))
  exact evaluate_of_tokens (scansTo_documentLines rs) (commands?_documentTokens rs) run

/-! ## Changes of the stored document -/

/-- What stands before and behind a query that changes the stored document. -/
def modifyFront : String := "UPDATE Configuration SET SchemaDefinition.modify('"

def modifyBack : String := "')"

/-- The command that changes the stored document by a query. -/
def modifyCommand (query : String) : String :=
  modifyFront ++ query ++ modifyBack

def modifyTokens (query : String) : List Token :=
  [.operand (.word "UPDATE"), .operand (.word "Configuration"), .operand (.word "SET"),
    .operand (.word "SchemaDefinition.modify"), .sign '(', .operand (.literal query), .sign ')']

theorem scan_modifyFront : Mode.between.scan modifyFront.toList =
    ([.operand (.word "UPDATE"), .operand (.word "Configuration"), .operand (.word "SET"),
      .operand (.word "SchemaDefinition.modify"), .sign '('], .literal []) := by
  decide

theorem scan_modifyCommand {query : String} (plain : '\'' ∉ query.toList) :
    Mode.between.scan (modifyCommand query).toList = (modifyTokens query, .between) := by
  have inside := Mode.scan_literal [] plain
  have back : (Mode.literal query.toList).scan modifyBack.toList =
      ([.operand (.literal (String.ofList query.toList)), .sign ')'], .between) := rfl
  rw [String.ofList_toList] at back
  rw [modifyCommand, String.toList_append, String.toList_append, List.append_assoc]
  exact Mode.scan_trans scan_modifyFront (Mode.scan_trans inside back)

theorem commands?_modifyTokens (query : String) :
    commands? (modifyTokens query) = some [.modify query] := by
  have read : command? (modifyTokens query) = some (.modify query, []) := rfl
  rw [commands?_of_command? read, commands?]
  rfl

/-- A text that is run asks for the change that it spells. -/
theorem evaluate_modifyCommand (vs : Variables) {query : String}
    (plain : '\'' ∉ query.toList) :
    evaluate vs (modifyCommand query) = some (vs, [.modify query]) :=
  evaluate_of_tokens (scan_modifyCommand plain) (commands?_modifyTokens query) rfl

/-- A line of a script asks for the change that it spells. -/
theorem evaluate_modifyLine (vs : Variables) {query : String} (plain : '\'' ∉ query.toList) :
    evaluate vs (renderLines [modifyLine query]) = some (vs, [.modify query]) := by
  have scanned : ScansTo [modifyLine query] (modifyTokens query ++ []) := by
    refine scansTo_line 0 ?_ (Mode.scan_trans (scan_modifyCommand plain) rfl)
    intro empty
    have characters := congrArg String.toList empty
    simp at characters
  rw [List.append_nil] at scanned
  exact evaluate_of_tokens scanned (commands?_modifyTokens query) rfl

/-- The variable in which a command is put together. -/
def commandVariable : String := "@command"

/-- The query that adds a record to the stored document. -/
def insertQuery (r : Record) : String :=
  "insert " ++ r.text ++ " into /StoreSchema[1]"

/-- What stands before and behind a record in the command that adds it. -/
def insertFront : String := modifyFront ++ "insert "

def insertBack : String := " into /StoreSchema[1]" ++ modifyBack

theorem modifyCommand_insertQuery (r : Record) :
    modifyCommand (insertQuery r) =
      String.join (insertFront :: r.markup.start :: (r.otherTags ++ [insertBack])) := by
  have last (texts : List String) (text : String) :
      String.join (texts ++ [text]) = String.join texts ++ text := by
    rw [← String.toList_inj]
    simp [String.toList_join]
  have tags := last (r.markup.start :: r.otherTags) insertBack
  rw [← r.text_eq] at tags
  rw [List.cons_append] at tags
  have spelled : modifyCommand (insertQuery r) = insertFront ++ (r.text ++ insertBack) := by
    unfold modifyCommand insertQuery insertFront insertBack
    rw [String.append_assoc, String.append_assoc, String.append_assoc, String.append_assoc]
  rw [spelled, String.join_cons, tags]

/-- The assignment of the command that adds a record. -/
def insertSum (r : Record) : Operand × List Operand :=
  (.literal insertFront, .literal r.markup.start :: (r.otherTags ++ [insertBack]).map .literal)

def executeTokens (name : String) : List Token :=
  [.operand (.word "EXEC"), .sign '(', .operand (.word name), .sign ')']

theorem scansTo_insertRecord (r : Record) : ScansTo (Statement.insertRecord r).lines
    (assignTokens commandVariable [insertSum r] ++ executeTokens commandVariable) := by
  have front : ScansTo
      [line "SET @command = 'UPDATE Configuration SET SchemaDefinition.modify(''insert ' +"]
      (setTokens commandVariable ++ [.operand (.literal insertFront), .sign '+']) :=
    scansTo_line 0 (by decide) (by decide +kernel)
  have back : ScansTo [⟨1, "+ ' into /StoreSchema[1]'')'"⟩]
      [.sign '+', .operand (.literal insertBack)] :=
    scansTo_line 1 (by decide) (by decide)
  have last : ScansTo [line "EXEC(@command)"] (executeTokens commandVariable) :=
    scansTo_line 0 (by decide) (by decide)
  have whole := ((front.append (r.scansTo_lines 1)).append back).append last
  have listed : (Statement.insertRecord r).lines =
      [line "SET @command = 'UPDATE Configuration SET SchemaDefinition.modify(''insert ' +"] ++
        indentedBy 1 r.lines ++ [⟨1, "+ ' into /StoreSchema[1]'')'"⟩] ++
        [line "EXEC(@command)"] := by
    simp [Statement.lines, indented, indentedBy, line]
  rw [listed]
  simpa [assignTokens, insertSum, sumTokens, Record.tokens] using whole

/-- Assign the command to the variable and run it. -/
theorem commands?_insertTokens (r : Record) :
    commands? (assignTokens commandVariable [insertSum r] ++ executeTokens commandVariable) =
      some [.assign commandVariable ((insertSum r).1 :: (insertSum r).2),
        .execute commandVariable] := by
  have execute : commands? (executeTokens commandVariable) =
      some [.execute commandVariable] := by
    have read : command? (executeTokens commandVariable) =
        some (.execute commandVariable, []) := rfl
    rw [commands?_of_command? read, commands?]
    rfl
  rw [assignTokens, List.flatMap_cons, List.flatMap_nil, List.append_nil, setTokens,
    commands?_assign _ _ _ (by simp [executeTokens]), execute]
  rfl

/-- The statements that add a record put a command together and run it. -/
theorem evaluate_insertRecord (r : Record) (before : Option String) :
    evaluate [(commandVariable, before)] (renderLines (Statement.insertRecord r).lines) =
      some ([(commandVariable, some (modifyCommand (insertQuery r)))],
        [.execute (modifyCommand (insertQuery r))]) := by
  have value : sum? [(commandVariable, before)] ((insertSum r).1 :: (insertSum r).2) =
      some (some (modifyCommand (insertQuery r))) := by
    rw [modifyCommand_insertQuery]
    exact sum?_literals _ (insertFront :: r.markup.start :: (r.otherTags ++ [insertBack]))
  have assigned : (Command.assign commandVariable ((insertSum r).1 :: (insertSum r).2)).run
      [(commandVariable, before)] =
      some ([(commandVariable, some (modifyCommand (insertQuery r)))], []) := by
    rw [Command.run, value]
    rfl
  refine evaluate_of_tokens (scansTo_insertRecord r) (commands?_insertTokens r)
    (runCommands_cons assigned ?_)
  rfl

/-- The statement that declares the variable for commands. -/
theorem evaluate_declareCommand :
    evaluate [] (renderLines Statement.declareCommand.lines) =
      some ([(commandVariable, none)], []) := by
  have scanned : ScansTo [line "DECLARE @command varchar(max)"]
      (declareTokens commandVariable) :=
    scansTo_line 0 (by decide) (by decide)
  have read : command? (declareTokens commandVariable) = some (.declare commandVariable, []) :=
    rfl
  have parsed : commands? (declareTokens commandVariable) = some [.declare commandVariable] := by
    rw [commands?_of_command? read, commands?]
    rfl
  exact evaluate_of_tokens scanned parsed rfl

end LearningStore.Script
