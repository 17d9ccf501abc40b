import LearningStore.Proofs.Script.Records
import LearningStore.Proofs.Text.SteadyText
import LearningStore.Proofs.Value.Constant
import LearningStore.Script.Statement

/-!
# Lines of statements

The lines of a statement neither end a batch nor start a function, apart from the statements that
do just that.  Names in it stand on one line, and the texts of a schema that it has in it are quiet.
-/

namespace LearningStore.Script

open LearningStore.Schema
open LearningStore.Text
open LearningStore.Value

variable {inWord : Char → Bool}

/-! ## Texts on one row -/

section OneRow

variable {text : String}

theorem oneRow_bracketed (row : OneRow text) : OneRow (bracketed text) :=
  ((by decide : OneRow "[").append row).append (by decide)

theorem fronted_bracketed (row : OneRow text) : Fronted (bracketed text).toList :=
  ((fronted_of_isFront (by decide) : Fronted "[".toList).append_row row).append_row (by decide)

theorem oneRow_of_isWordChar (words : Over isWordChar text) : OneRow text :=
  fun feed => absurd (words '\n' feed) (by decide)

theorem oneRow_of_isDocumentChar (words : Over isDocumentChar text) : OneRow text :=
  fun feed => absurd (words '\n' feed) (by decide)

theorem oneRow_of_oneLine (single : OneLine text.toList) : OneRow text :=
  fun feed => absurd (single '\n' feed) (by decide)

theorem oneRow_of_isIdentifier (name : IsIdentifier text) : OneRow text :=
  oneRow_of_isWordChar (over_identifier name)

end OneRow

/-! ## Constants -/

theorem isSymbol_of_isDigit {c : Char} (digit : isDigit c = true) : isSymbol c = true := by
  refine isSymbol_iff.mpr ⟨?_, not_isBlank_of_isDigit digit⟩
  have below : c.toNat ≤ 57 := of_decide_eq_true (Bool.and_eq_true_iff.mp digit).2
  rw [isLetter, Bool.or_eq_false_iff, Bool.and_eq_false_iff, Bool.and_eq_false_iff]
  refine ⟨.inl (decide_eq_false fun low => ?_), .inl (decide_eq_false fun low => ?_)⟩
  · have above : 65 ≤ c.toNat := low
    omega
  · have above : 97 ≤ c.toNat := low
    omega

theorem exists_symbol_of_isDecimal {s : List Char} (decimal : isDecimal s = true) :
    ∃ c rest, s = c :: rest ∧ isSymbol c = true := by
  cases s with
  | nil => cases decimal
  | cons c rest =>
      refine ⟨c, rest, rfl, ?_⟩
      rcases isDigit_or_point decimal List.mem_cons_self with digit | rfl
      · exact isSymbol_of_isDigit digit
      · rfl

theorem exists_symbol_integerText (n : Int) :
    ∃ c rest, (integerText n).toList = c :: rest ∧ isSymbol c = true := by
  cases n with
  | ofNat m =>
      rw [integerText, String.toList_ofList]
      exact exists_symbol_of_isDecimal (isDecimal_of_digits Nat.toDigits_ne_nil (digits_digitsOf m))
  | negSucc m => exact ⟨'-', digitsOf (m + 1), String.toList_ofList, rfl⟩

theorem exists_symbol_text (format : BinaryFormat) (x : Binary) :
    ∃ c rest, (x.text format).toList = c :: rest ∧ isSymbol c = true := by
  rw [Binary.text, String.toList_ofList]
  cases x.negative with
  | true => exact ⟨'-', _, rfl, rfl⟩
  | false =>
      refine exists_symbol_of_isDecimal ?_
      rw [if_neg Bool.false_ne_true]
      change isDecimal (if _ then _ else _) = true
      split
      next => decide
      next => exact isDecimal_positional _ _

/-- No literal is written with a letter at its start. -/
theorem exists_symbol_literal (l : Literal) :
    ∃ c rest, l.sqlConstant.toList = c :: rest ∧ isSymbol c = true := by
  cases l with
  | boolean value =>
      cases value with
      | true => exact ⟨'1', [], rfl, rfl⟩
      | false => exact ⟨'0', [], rfl, rfl⟩
  | byteArray bytes => exact ⟨'0', _, String.toList_ofList, rfl⟩
  | dateTime value =>
      refine ⟨'\x7b', "ts '".toList ++ value.toMillisecond ++ "'\x7d".toList, ?_, rfl⟩
      simp [Literal.sqlConstant]
  | double value => exact exists_symbol_text .double value
  | single value => exact exists_symbol_text .single value
  | int32 value => exact exists_symbol_integerText value
  | enumeration value => exact exists_symbol_integerText value
  | guid value =>
      refine ⟨'\'', value.hyphenated.toList ++ ['\''], ?_, rfl⟩
      simp [Literal.sqlConstant]
  | string value => exact ⟨'\'', _, String.toList_ofList, rfl⟩
  | xml value => exact ⟨'\'', _, String.toList_ofList, rfl⟩

theorem oneRow_onOneLine (s : List Char) : OneRow (String.ofList (Literal.onOneLine s)) := by
  rw [OneRow, String.toList_ofList, onOneLine_eq]
  exact notMem_flattened s (.inr rfl)

/-- A default without a text of its own is written on one row. -/
theorem oneRow_sqlConstant {d : DefaultValue} (noText : d.freeText? = none) :
    OneRow d.sqlConstant := by
  cases d with
  | null => exact (by decide : OneRow "NULL")
  | function expression => cases noText
  | literal l =>
      cases l with
      | boolean value =>
          cases value with
          | true => exact (by decide : OneRow "1")
          | false => exact (by decide : OneRow "0")
      | byteArray bytes =>
          refine oneRow_of_oneLine ?_
          rw [DefaultValue.sqlConstant, Literal.sqlConstant, String.toList_ofList, oneLine_cons,
            oneLine_cons]
          refine ⟨by decide, by decide, fun c inside => ?_⟩
          obtain ⟨byte, -, found⟩ := List.mem_flatMap.mp inside
          exact (figures_hexPair byte).oneLine c found
      | dateTime value =>
          refine ((by decide : OneRow "\x7bts '").append (oneRow_of_oneLine ?_)).append (by decide)
          rw [String.toList_ofList, DateTime.toMillisecond, oneLine_append]
          exact ⟨(figures_toSecond value).oneLine,
            oneLine_cons.mpr ⟨by decide, (figures_paddedDigits _ _).oneLine⟩⟩
      | double value => exact oneRow_of_oneLine (figures_text .double value).oneLine
      | single value => exact oneRow_of_oneLine (figures_text .single value).oneLine
      | int32 value => exact oneRow_of_oneLine (oneLine_integerText value)
      | enumeration value => exact oneRow_of_oneLine (oneLine_integerText value)
      | guid value =>
          have digits := oneRow_of_oneLine (figures_hyphenated value).oneLine
          exact ((by decide : OneRow "'").append digits).append (by decide)
      | string value => cases noText
      | xml value => cases noText

/-! ## Defaults -/

theorem quiet_nil : Quiet inWord [] :=
  ⟨nofun, not_mentionsFunction_of_lacks (c := 'f') (by decide) (by decide)⟩

/-- A default whose own text, if it has one, is quiet. -/
def QuietDefault (inWord : Char → Bool) (d : DefaultValue) : Prop :=
  ∀ text, d.freeText? = some text → Quiet inWord text.toList

namespace QuietDefault

variable {d : DefaultValue}

/-- Behind its first row a default is steady. -/
theorem behind (ends : EndsAtBlanks inWord) (quiet : QuietDefault inWord d) :
    ∀ r ∈ (rows d.sqlConstant.toList).tail, Steady inWord r := by
  have single {text : String} (row : OneRow text) :
      ∀ r ∈ (rows text.toList).tail, Steady inWord r := by
    rw [rows_single row]
    exact nofun
  cases free : d.freeText? with
  | none => exact single (oneRow_sqlConstant free)
  | some text =>
      cases d with
      | null => cases free
      | function expression =>
          exact fun r later => (quiet _ rfl).steady ends r (List.mem_of_mem_tail later)
      | literal l =>
          cases l with
          | string value =>
              intro r later
              exact ((quiet _ rfl).follows_sqlString ends).steady r (List.mem_of_mem_tail later)
          | xml value => exact single (oneRow_onOneLine value.toList).sqlString
          | _ => cases free

theorem follows_symbol (ends : EndsAtBlanks inWord) (quiet : QuietDefault inWord d) {c : Char}
    (symbol : isSymbol c = true) : Follows inWord (c :: d.sqlConstant.toList) :=
  follows_cons_symbol ends symbol (quiet.behind ends)

/-- A default is a quiet text or starts with a symbol. -/
theorem follows_blank (ends : EndsAtBlanks inWord) (quiet : QuietDefault inWord d) :
    Follows inWord (' ' :: d.sqlConstant.toList) := by
  cases d with
  | null =>
      have null : Quiet inWord "NULL".toList :=
        ⟨by decide, not_mentionsFunction_of_lacks (c := 'f') (by decide) (by decide)⟩
      exact null.follows_blank ends
  | function expression => exact (quiet _ rfl).follows_blank ends
  | literal l =>
      have later := quiet.behind ends
      obtain ⟨c, rest, spelled, symbol⟩ := exists_symbol_literal l
      have plain : c ≠ '\n' := by
        rintro rfl
        cases symbol
      rw [DefaultValue.sqlConstant, spelled, tail_rows_cons plain] at later
      rw [DefaultValue.sqlConstant, spelled]
      exact (quiet_nil.follows_blank ends).append (follows_cons_symbol ends symbol later)

end QuietDefault

/-! ## Columns -/

/-- A column with a name and a type on one row, and quiet texts. -/
structure TableColumn.Fits (inWord : Char → Bool) (c : TableColumn) : Prop where
  name : OneRow c.name
  type : OneRow c.type
  default : ∀ d ∈ c.default, QuietDefault inWord d
  constraints : ∀ text ∈ c.constraints, Quiet inWord text.toList

theorem toList_intercalate_cons (separator first : String) (rest : List String) :
    (separator.intercalate (first :: rest)).toList =
      first.toList ++ (rest.map fun part => separator.toList ++ part.toList).flatten := by
  induction rest generalizing first with
  | nil =>
      rw [String.intercalate_singleton]
      exact (List.append_nil _).symm
  | cons second rest ih =>
      rw [String.intercalate_cons_cons, String.toList_append, String.toList_append, ih]
      simp

/-- A word behind a blank that lacks a letter of the one that a function needs. -/
theorem follows_word (ends : EndsAtBlanks inWord) {text : List Char} {c : Char}
    (needed : c ∈ "function".toList) (lacks : c ∉ text.map lowerLetter)
    (noGo : ∀ l ∈ lines text, isGo l = false) : Follows inWord (' ' :: text) :=
  (Quiet.mk noGo (not_mentionsFunction_of_lacks needed lacks)).follows_blank ends

theorem follows_defaultClause (ends : EndsAtBlanks inWord) {d : DefaultValue}
    (quiet : QuietDefault inWord d) :
    Follows inWord (' ' :: ("DEFAULT " ++ d.sqlConstant).toList) := by
  have front : Follows inWord (' ' :: "DEFAULT".toList) :=
    follows_word ends (c := 'n') (by decide) (by decide) (by decide)
  have spelled : ("DEFAULT " ++ d.sqlConstant).toList =
      "DEFAULT".toList ++ ' ' :: d.sqlConstant.toList := by
    rw [String.toList_append]
    rfl
  rw [spelled]
  exact front.append (quiet.follows_blank ends)

theorem follows_checkClause (ends : EndsAtBlanks inWord) {name : String} (single : OneRow name)
    (n : Int) : Follows inWord
      (' ' :: ("CHECK(LEN(" ++ bracketed name ++ ")<=" ++ integerText n ++ ")").toList) := by
  have front : Follows inWord (' ' :: "CHECK".toList) :=
    follows_word ends (c := 'f') (by decide) (by decide) (by decide)
  have row : OneRow ("LEN(" ++ bracketed name ++ ")<=" ++ integerText n ++ ")") :=
    ((((by decide : OneRow "LEN(").append (oneRow_bracketed single)).append (by decide)).append
      (oneRow_of_oneLine (oneLine_integerText n))).append (by decide)
  have behind : Follows inWord
      ('(' :: ("LEN(" ++ bracketed name ++ ")<=" ++ integerText n ++ ")").toList) := by
    refine follows_cons_symbol ends rfl ?_
    rw [rows_single row]
    exact nofun
  have spelled : ("CHECK(LEN(" ++ bracketed name ++ ")<=" ++ integerText n ++ ")").toList =
      "CHECK".toList ++
        '(' :: ("LEN(" ++ bracketed name ++ ")<=" ++ integerText n ++ ")").toList := by
    simp
  rw [spelled]
  exact front.append behind

theorem TableColumn.Fits.follows_clause (ends : EndsAtBlanks inWord) {c : TableColumn}
    (fits : c.Fits inWord) {clause : String} (inside : clause ∈ c.clauses) :
    Follows inWord (' ' :: clause.toList) := by
  simp only [clauses, List.mem_append, List.mem_map, Option.mem_toList] at inside
  rcases inside with (((rowGuid | nullable) | ⟨d, given, rfl⟩) | ⟨n, checked, rfl⟩) |
    ⟨text, constraint, rfl⟩
  · split at rowGuid
    next =>
      rw [List.mem_singleton.mp rowGuid]
      exact follows_word ends (c := 'f') (by decide) (by decide) (by decide)
    next => cases rowGuid
  · split at nullable
    next => cases nullable
    next =>
      rw [List.mem_singleton.mp nullable]
      exact follows_word ends (c := 'f') (by decide) (by decide) (by decide)
  · exact follows_defaultClause ends (fits.default d given)
  · exact follows_checkClause ends fits.name n
  · rw [trimmed, String.toList_ofList]
    exact ((fits.constraints text constraint).trim ends).follows_blank ends

theorem TableColumn.Fits.steady (ends : EndsAtBlanks inWord) {c : TableColumn}
    (fits : c.Fits inWord) : SteadyText inWord c.definition.toList := by
  have front : Fronted (bracketed c.name ++ " " ++ c.type).toList :=
    ((fronted_bracketed fits.name).append_row (by decide)).append_row fits.type
  have spelled : c.definition.toList = (bracketed c.name ++ " " ++ c.type).toList ++
      (c.clauses.map fun clause => ' ' :: clause.toList).flatten := by
    rw [definition, toList_intercalate_cons]
    simp
  rw [spelled]
  refine (front.steady ends).append (follows_flatten ?_)
  rw [List.forall_mem_map]
  exact fun clause inside => fits.follows_clause ends inside

/-! ## Functions -/

/-- A parameter with a name and a type on one row, and a default whose text is quiet. -/
structure FunctionParameter.Fits (inWord : Char → Bool) (p : FunctionParameter) : Prop where
  name : OneRow p.name
  type : OneRow p.type
  default : ∀ d ∈ p.default, QuietDefault inWord d

namespace FunctionBody

/-- A body with quiet texts, and names on one row. -/
def Fits (inWord : Char → Bool) : FunctionBody → Prop
  | granted expressions => ∀ text ∈ expressions, Quiet inWord text.toList
  | query text => Quiet inWord text.toList
  | everyRow columns table => (∀ name ∈ columns, OneRow name) ∧ OneRow table

/-- Expressions are joined by symbols. -/
theorem steady_union (ends : EndsAtBlanks inWord) {expressions : List String}
    (quiet : ∀ text ∈ expressions, Quiet inWord text.toList) :
    SteadyText inWord (union expressions).toList := by
  have front : SteadyText inWord "RETURN ".toList :=
    (fronted_of_isFront (by decide)).steady ends
  have mark {c : Char} (symbol : isSymbol c = true) : Follows inWord [c] :=
    follows_cons_symbol ends symbol nofun
  have blank : Follows inWord [' '] := quiet_nil.follows_blank ends
  have part {text : String} (inside : text ∈ expressions) :
      Follows inWord ("(" ++ text ++ ")").toList := by
    have opened : Follows inWord ('(' :: text.toList) :=
      (quiet text inside).follows_symbol ends rfl
    rw [String.toList_append, String.toList_append]
    exact opened.append (mark rfl)
  rw [union, String.toList_append]
  refine front.append ?_
  cases expressions with
  | nil => exact follows_nil
  | cons first rest =>
      rw [List.map_cons, toList_intercalate_cons]
      refine (part List.mem_cons_self).append (follows_flatten ?_)
      rw [List.map_map, List.forall_mem_map]
      intro text inside
      have between : Follows inWord ([' '] ++ ['|'] ++ [' ']) :=
        (blank.append (mark rfl)).append blank
      exact between.append (part (List.mem_cons_of_mem first inside))

theorem steadyLines_inner (ends : EndsAtBlanks inWord) {body : FunctionBody}
    (fits : body.Fits inWord) : SteadyLines inWord body.inner := by
  cases body with
  | granted expressions => exact steadyLines_statementLines (steady_union ends fits)
  | query text => exact steadyLines_statementLines (fits.steady ends)
  | everyRow columns table =>
      have names : OneRow (String.join (columns.map fun c => ", " ++ bracketed c)) := by
        intro feed
        rw [String.toList_join] at feed
        obtain ⟨text, member, found⟩ := List.mem_flatMap.mp feed
        obtain ⟨name, inside, rfl⟩ := List.mem_map.mp member
        exact (by decide : OneRow ", ").append (oneRow_bracketed (fits.1 name inside)) found
      have selected : Fronted "SELECT Id".toList := fronted_of_isFront (by decide)
      have source : Fronted "FROM ".toList := fronted_of_isFront (by decide)
      refine steadyLines_cons.mpr ⟨(selected.append_row names).steady ends,
        steadyLines_cons.mpr ⟨?_, steadyLines_nil⟩⟩
      exact (source.append_row (oneRow_bracketed fits.2)).steady ends

theorem steadyLines_lines (ends : EndsAtBlanks inWord) {body : FunctionBody}
    (fits : body.Fits inWord) : SteadyLines inWord body.lines := by
  have inner := steadyLines_indented.mpr (steadyLines_inner ends fits)
  unfold lines
  split
  next =>
    refine steadyLines_append.mpr ⟨steadyLines_append.mpr ⟨?_, inner⟩, ?_⟩
    · exact steadyLines_of_fronts ends (by decide)
    · exact steadyLines_of_fronts ends (by decide)
  next =>
    refine steadyLines_append.mpr ⟨steadyLines_append.mpr ⟨?_, inner⟩, ?_⟩
    · exact steadyLines_of_fronts ends (by decide)
    · exact steadyLines_of_fronts ends (by decide)

end FunctionBody

theorem FunctionParameter.Fits.follows (ends : EndsAtBlanks inWord) {p : FunctionParameter}
    (fits : p.Fits inWord) : Follows inWord p.text.toList := by
  have front : Follows inWord (',' :: ("@" ++ p.name ++ " " ++ p.type).toList) := by
    refine follows_cons_symbol ends rfl ?_
    have row : OneRow ("@" ++ p.name ++ " " ++ p.type) :=
      (((by decide : OneRow "@").append fits.name).append (by decide)).append fits.type
    rw [rows_single row]
    exact nofun
  have spelled : p.text.toList = ',' :: ("@" ++ p.name ++ " " ++ p.type).toList ++
      (p.default.toList.map fun d => '=' :: d.sqlConstant.toList).flatten := by
    simp [text, String.toList_join, List.flatMap_def, Function.comp_def]
  rw [spelled]
  refine front.append (follows_flatten ?_)
  rw [List.forall_mem_map]
  exact fun d given => (fits.default d (Option.mem_toList.mp given)).follows_symbol ends rfl

/-- A function with parameters and a body that fit. -/
structure SqlFunction.Fits (inWord : Char → Bool) (f : SqlFunction) : Prop where
  name : OneRow f.name
  parameters : ∀ p ∈ f.parameters, p.Fits inWord
  body : f.body.Fits inWord

theorem SqlFunction.Fits.header_rows (ends : EndsAtBlanks inWord) {f : SqlFunction}
    (fits : f.Fits inWord) : ∃ first later, (line f.header).rows = first :: later ∧
      isGo first = false ∧ ∀ r ∈ later, Steady inWord r := by
  have name : Follows inWord ('[' :: (f.name ++ "]" ++ "(@UserKey nvarchar(250)").toList) := by
    refine follows_cons_symbol ends rfl ?_
    have row : OneRow (f.name ++ "]" ++ "(@UserKey nvarchar(250)") :=
      (fits.name.append (by decide)).append (by decide)
    rw [rows_single row]
    exact nofun
  have parameters : Follows inWord (f.parameters.map fun p => p.text.toList).flatten := by
    refine follows_flatten ?_
    rw [List.forall_mem_map]
    exact fun p inside => (fits.parameters p inside).follows ends
  have close : Follows inWord [')'] := follows_cons_symbol ends rfl nofun
  have spelled : f.header.toList = "CREATE FUNCTION ".toList ++
      ('[' :: (f.name ++ "]" ++ "(@UserKey nvarchar(250)").toList ++
        (f.parameters.map fun p => p.text.toList).flatten ++ [')']) := by
    have opened : "[".toList = ['['] := by decide
    have closed : ")".toList = [')'] := by decide
    unfold SqlFunction.header bracketed
    rw [String.toList_append, String.toList_append, String.toList_append, String.toList_append,
      String.toList_append, String.toList_append, String.toList_append, String.toList_append,
      String.toList_join, List.flatMap_map, List.flatMap_def, opened, closed]
    simp only [List.append_assoc, List.cons_append, List.nil_append]
  have follows := (name.append parameters).append close
  generalize '[' :: (f.name ++ "]" ++ "(@UserKey nvarchar(250)").toList ++
    (f.parameters.map fun p => p.text.toList).flatten ++ [')'] = rest at spelled follows
  obtain ⟨y, ys, split⟩ := exists_cons_of_rows rest
  obtain ⟨-, behind⟩ := follows y ys split
  have whole := rows_append_of_notMem (a := "CREATE FUNCTION ".toList) (by decide) split
  refine ⟨withoutReturn ("CREATE FUNCTION ".toList ++ y), ys.map withoutReturn, ?_, ?_, ?_⟩
  · rw [Line.rows_line, spelled, whole, List.map_cons]
  · rw [isGo_congr (trim_withoutReturn _)]
    exact isGo_of_departs (by decide) (by decide) y
  · rw [List.forall_mem_map]
    exact fun r inside => (behind r inside).congr (trim_withoutReturn r).symm

/-- The first row of a function is the only one that can start it, and it ends no batch. -/
theorem SqlFunction.Fits.rows (ends : EndsAtBlanks inWord) {f : SqlFunction}
    (fits : f.Fits inWord) : ∃ first later, f.lines.flatMap Line.rows = first :: later ∧
      isGo first = false ∧ ∀ r ∈ later, Steady inWord r := by
  obtain ⟨first, later, header, noGo, steady⟩ := fits.header_rows ends
  refine ⟨first, later ++ f.body.lines.flatMap Line.rows, ?_, noGo, ?_⟩
  · rw [SqlFunction.lines, List.flatMap_cons, header, List.cons_append]
  · exact List.forall_mem_append.mpr ⟨steady, (FunctionBody.steadyLines_lines ends fits.body).rows⟩

/-! ## Statements -/

namespace Statement

/-- What the lines of a statement rely on: names in it stand on one row, the records are made of
simple tags, and the texts of a schema are quiet. -/
def Fits (inWord : Char → Bool) : Statement → Prop
  | comment text => OneRow text
  | snippet text => Quiet inWord text.toList
  | raiseIf condition message => OneRow condition ∧ OneRow message
  | turnOn setting => OneRow setting
  | setDocument rs => ∀ r ∈ rs, r.Simple
  | grant _ object => OneRow object
  | createEnumTable name => OneRow name
  | identityInsert table _ => OneRow table
  | insertRow table _ name => OneRow table ∧ OneRow name
  | createTable name columns => OneRow name ∧ ∀ c ∈ columns, c.Fits inWord
  | addForeignKey k => OneRow k.table ∧ OneRow k.column ∧ OneRow k.target
  | createFunction f => f.Fits inWord
  | deleteAttribute name => OneRow name
  | deleteRecords element => OneRow element
  | insertAttribute itemType name value => OneRow itemType ∧ OneRow name ∧ OneRow value
  | insertRecord r => r.Simple
  | _ => True

/-- Whether a statement stays inside its batch and creates no function. -/
def isCalm : Statement → Bool
  | endBatch | createFunction _ => false
  | _ => true

end Statement

theorem steadyLines_record (ends : EndsAtBlanks inWord) {r : Record} (simple : r.Simple) :
    SteadyLines inWord r.lines := by
  have quoted {text : String} (words : Over isDocumentChar text) :
      Fronted (sqlString text).toList := fronted_sqlString (oneRow_of_isDocumentChar words)
  refine steadyLines_append.mpr ⟨steadyLines_cons.mpr ⟨?_, ?_⟩, steadyLines_cons.mpr ⟨?_, ?_⟩⟩
  · exact ((quoted simple.markup.over_start).append_row (by decide)).steady ends
  · refine steadyLines_indented.mpr (List.forall_mem_map.mpr fun m inside => ?_)
    exact ((quoted (simple.members m inside).over_empty).append_row (by decide)).steady ends
  · exact (quoted simple.markup.over_stop).steady ends
  · exact steadyLines_nil

theorem steadyLines_documentLines (ends : EndsAtBlanks inWord) {rs : List Record}
    (simple : ∀ r ∈ rs, r.Simple) : SteadyLines inWord (documentLines rs) := by
  refine steadyLines_append.mpr ⟨steadyLines_append.mpr ⟨?_, fun l inside => ?_⟩, ?_⟩
  · exact steadyLines_of_fronts ends (by decide)
  · obtain ⟨r, member, found⟩ := List.mem_flatMap.mp inside
    refine steadyLines_cons.mpr ⟨?_, ?_⟩ l found
    · exact (fronted_of_isFront (by decide)).steady ends
    · exact steadyLines_indented.mpr (steadyLines_record ends (simple r member))
  · exact steadyLines_of_fronts ends (by decide)

theorem steadyLines_commaLines (ends : EndsAtBlanks inWord) {items : List String}
    (steady : ∀ item ∈ items, SteadyText inWord item.toList) :
    SteadyLines inWord (commaLines items) := by
  have comma : Follows inWord [','] := follows_cons_symbol ends rfl nofun
  fun_induction commaLines items with
  | case1 => exact steadyLines_nil
  | case2 last => exact steadyLines_cons.mpr ⟨steady last List.mem_cons_self, steadyLines_nil⟩
  | case3 item rest more ih =>
      obtain ⟨here, others⟩ := List.forall_mem_cons.mp steady
      refine steadyLines_cons.mpr ⟨?_, ih others⟩
      rw [line, String.toList_append]
      exact here.append comma

theorem steadyLines_recordedQuery (ends : EndsAtBlanks inWord) {entry : String × String}
    (attributeRow : OneRow entry.1) (elementRow : OneRow entry.2) :
    SteadyLines inWord (recordedQuery entry) := by
  have selected : Fronted ("SELECT V.value('@" ++ entry.1 ++ "', 'nvarchar(100)')").toList :=
    (fronted_ofList (by decide)).around attributeRow (by decide)
  have applied : Fronted ("CROSS APPLY SchemaDefinition.nodes('/StoreSchema/" ++ entry.2 ++
      "') AS Result(V)").toList :=
    (fronted_ofList (by decide)).around elementRow (by decide)
  have chosen : Fronted ("WHERE V.value('@" ++ entry.1 ++
      "','nvarchar(100)') IS NOT NULL").toList :=
    (fronted_ofList (by decide)).around attributeRow (by decide)
  exact steadyLines_cons.mpr ⟨selected.steady ends, steadyLines_cons.mpr
    ⟨(fronted_ofList (by decide)).steady ends, steadyLines_cons.mpr
      ⟨applied.steady ends, steadyLines_cons.mpr ⟨chosen.steady ends, steadyLines_nil⟩⟩⟩⟩

theorem steadyLines_dropLines (ends : EndsAtBlanks inWord) : SteadyLines inWord dropLines := by
  have rows : ∀ entry ∈ recordedFunctions, OneRow entry.1 ∧ OneRow entry.2 := by decide
  have queries : SteadyLines inWord
      (List.intercalate [line "UNION"] (recordedFunctions.map recordedQuery)) := by
    intro l inside
    rcases mem_or_mem_of_mem_intercalate inside with between | ⟨part, member, found⟩
    · exact steadyLines_of_fronts ends (by decide +kernel) l between
    · obtain ⟨entry, known, rfl⟩ := List.mem_map.mp member
      exact steadyLines_recordedQuery ends (rows entry known).1 (rows entry known).2 l found
  refine steadyLines_append.mpr ⟨steadyLines_append.mpr ⟨steadyLines_append.mpr
    ⟨steadyLines_append.mpr ⟨?_, queries⟩, ?_⟩, steadyLines_indented.mpr ?_⟩, ?_⟩
  · exact steadyLines_of_fronts ends (by decide +kernel)
  · exact steadyLines_of_fronts ends (by decide +kernel)
  · exact steadyLines_of_fronts ends (by decide +kernel)
  · exact steadyLines_of_fronts ends (by decide +kernel)

theorem oneRow_integerText (n : Int) : OneRow (integerText n) :=
  oneRow_of_oneLine (oneLine_integerText n)

theorem fronted_integerText (n : Int) : Fronted (integerText n).toList := by
  have row := oneRow_integerText n
  obtain ⟨c, rest, spelled, symbol⟩ := exists_symbol_integerText n
  rw [OneRow, spelled] at row
  rw [spelled]
  exact fronted_cons_symbol symbol (mt (List.mem_cons_of_mem c) row)

theorem steadyLines_line (ends : EndsAtBlanks inWord) {text : String}
    (fronted : Fronted text.toList) : SteadyLines inWord [line text] :=
  steadyLines_cons.mpr ⟨fronted.steady ends, steadyLines_nil⟩

theorem steadyLines_modifyLine (ends : EndsAtBlanks inWord) {command : String}
    (row : OneRow command) : SteadyLines inWord [modifyLine command] :=
  steadyLines_line ends ((fronted_ofList (by decide)).around row (by decide))

namespace Statement

variable {name table condition message value : String}

theorem steady_raiseIf (ends : EndsAtBlanks inWord) (conditionRow : OneRow condition)
    (messageRow : OneRow message) : SteadyLines inWord (raiseIf condition message).lines := by
  have closed {ls : List Line} (fronts : ls.all (fun l => isFront l.text.toList) = true) :
      SteadyLines inWord ls := steadyLines_of_fronts ends fronts
  have guarded := (fronted_ofList (by decide) : Fronted "IF ".toList).append_row conditionRow
  refine steadyLines_append.mpr ⟨steadyLines_append.mpr ⟨?_, ?_⟩, closed (by decide +kernel)⟩
  · exact steadyLines_cons.mpr ⟨guarded.steady ends, closed (by decide +kernel)⟩
  · refine steadyLines_indented.mpr (steadyLines_cons.mpr ⟨?_, closed (by decide +kernel)⟩)
    exact ((fronted_ofList (by decide)).around messageRow.sqlString (by decide)).steady ends

theorem steady_grant (ends : EndsAtBlanks inWord) {object : String} (row : OneRow object)
    (permission : Permission) : SteadyLines inWord (grant permission object).lines := by
  have permitted : OneRow permission.text := by
    cases permission <;> decide
  have granted := ((fronted_ofList (by decide) : Fronted "GRANT ".toList).append_row
    permitted).append_row (b := " ON ") (oneRow_ofList (by decide))
  have named := (granted.append_row (oneRow_bracketed row)).append_row (b := " TO ")
    (oneRow_ofList (by decide))
  exact steadyLines_line ends (named.append_row (by decide : OneRow role))

theorem steady_createEnumTable (ends : EndsAtBlanks inWord) (row : OneRow name) :
    SteadyLines inWord (createEnumTable name).lines := by
  refine steadyLines_append.mpr ⟨steadyLines_append.mpr ⟨?_, ?_⟩, ?_⟩
  · exact steadyLines_line ends
      ((fronted_ofList (by decide)).around (oneRow_bracketed row) (by decide))
  · exact steadyLines_of_fronts ends (by decide +kernel)
  · exact steadyLines_of_fronts ends (by decide +kernel)

theorem steady_identityInsert (ends : EndsAtBlanks inWord) (row : OneRow table) (on : Bool) :
    SteadyLines inWord (identityInsert table on).lines := by
  have switch : OneRow (if on then " ON" else " OFF") := by
    cases on <;> decide
  exact steadyLines_line ends
    (((fronted_ofList (by decide)).append_row (oneRow_bracketed row)).append_row switch)

theorem steady_insertRow (ends : EndsAtBlanks inWord) (tableRow : OneRow table)
    (nameRow : OneRow name) (id : Int) : SteadyLines inWord (insertRow table id name).lines := by
  have closed {ls : List Line} (fronts : ls.all (fun l => isFront l.text.toList) = true) :
      SteadyLines inWord ls := steadyLines_of_fronts ends fronts
  refine steadyLines_append.mpr ⟨steadyLines_append.mpr ⟨steadyLines_append.mpr
    ⟨steadyLines_append.mpr ⟨?_, closed (by decide +kernel)⟩, closed (by decide +kernel)⟩, ?_⟩,
      closed (by decide +kernel)⟩
  · exact steadyLines_line ends
      ((fronted_ofList (by decide)).around (oneRow_bracketed tableRow) (by decide))
  · refine steadyLines_indented.mpr (steadyLines_cons.mpr ⟨?_, ?_⟩)
    · exact ((fronted_integerText id).append_row (by decide)).steady ends
    · exact steadyLines_line ends (fronted_sqlString nameRow)

theorem steady_createTable (ends : EndsAtBlanks inWord) (row : OneRow name)
    {columns : List TableColumn} (fits : ∀ c ∈ columns, c.Fits inWord) :
    SteadyLines inWord (createTable name columns).lines := by
  refine steadyLines_append.mpr ⟨steadyLines_append.mpr ⟨?_, ?_⟩, ?_⟩
  · exact steadyLines_line ends
      ((fronted_ofList (by decide)).around (oneRow_bracketed row) (by decide))
  · refine steadyLines_indented.mpr (steadyLines_commaLines ends ?_)
    refine List.forall_mem_cons.mpr ⟨(fronted_ofList (by decide)).steady ends, ?_⟩
    rw [List.forall_mem_map]
    exact fun c inside => (fits c inside).steady ends
  · exact steadyLines_of_fronts ends (by decide +kernel)

theorem steady_addForeignKey (ends : EndsAtBlanks inWord) {k : ForeignKey}
    (table : OneRow k.table) (column : OneRow k.column) (target : OneRow k.target) :
    SteadyLines inWord (addForeignKey k).lines := by
  have name : OneRow k.name :=
    (((by decide : OneRow "FK_").append table).append (by decide)).append column
  have cascade : OneRow (if k.cascade then " ON DELETE CASCADE" else "") := by
    cases k.cascade <;> decide
  have added := ((fronted_ofList (by decide) : Fronted "ADD CONSTRAINT ".toList).append_row
    name).append_row (b := " FOREIGN KEY (") (oneRow_ofList (by decide))
  have referred := ((fronted_ofList (by decide) : Fronted "REFERENCES ".toList).append_row
    (oneRow_bracketed target)).append_row (b := " (Id)") (oneRow_ofList (by decide))
  refine steadyLines_cons.mpr ⟨?_, steadyLines_cons.mpr ⟨?_, ?_⟩⟩
  · exact ((fronted_ofList (by decide)).append_row (oneRow_bracketed table)).steady ends
  · exact (added.around (oneRow_bracketed column) (by decide)).steady ends
  · exact steadyLines_line ends (referred.append_row cascade)

theorem steady_insertAttribute (ends : EndsAtBlanks inWord) {itemType : String}
    (owner : OneRow itemType) (key : OneRow name) (content : OneRow value) :
    SteadyLines inWord (insertAttribute itemType name value).lines := by
  have inserted := (((oneRow_ofList (by decide) : OneRow "insert attribute ").append key).append
    (oneRow_ofList (by decide) : OneRow "\x7b\"")).append content
  have place : OneRow "\"\x7d into /StoreSchema[1]/ItemType[@Name=\"" :=
    oneRow_ofList (by decide)
  exact steadyLines_modifyLine ends
    (((inserted.append place).append owner).append (oneRow_ofList (by decide)))

theorem steady_insertRecord (ends : EndsAtBlanks inWord) {r : Record} (simple : r.Simple) :
    SteadyLines inWord (insertRecord r).lines := by
  refine steadyLines_append.mpr ⟨steadyLines_append.mpr ⟨?_, ?_⟩, ?_⟩
  · exact steadyLines_of_fronts ends (by decide +kernel)
  · exact steadyLines_indented.mpr (steadyLines_append.mpr
      ⟨steadyLines_record ends simple, steadyLines_of_fronts ends (by decide +kernel)⟩)
  · exact steadyLines_of_fronts ends (by decide +kernel)

/-- The lines of every other statement neither end a batch nor start a function. -/
theorem Fits.steady (ends : EndsAtBlanks inWord) {st : Statement} (fits : st.Fits inWord)
    (calm : st.isCalm = true) : SteadyLines inWord st.lines := by
  have closed {ls : List Line} (fronts : ls.all (fun l => isFront l.text.toList) = true) :
      SteadyLines inWord ls := steadyLines_of_fronts ends fronts
  cases st with
  | comment text => exact steadyLines_line ends ((fronted_ofList (by decide)).append_row fits)
  | blank => exact steadyLines_cons.mpr ⟨follows_nil.steady, steadyLines_nil⟩
  | endBatch => cases calm
  | createFunction f => cases calm
  | snippet text => exact steadyLines_statementLines (Quiet.steady ends fits)
  | raiseIf condition message => exact steady_raiseIf ends fits.1 fits.2
  | turnOn setting =>
      exact steadyLines_line ends ((fronted_ofList (by decide)).around fits (by decide))
  | commit => exact closed (by decide +kernel)
  | createConfiguration => exact closed (by decide +kernel)
  | setDocument rs => exact steadyLines_documentLines ends fits
  | insertConfiguration => exact closed (by decide +kernel)
  | createRole => exact closed (by decide +kernel)
  | grantConfiguration => exact closed (by decide +kernel)
  | grant permission object => exact steady_grant ends fits permission
  | createEnumTable name => exact steady_createEnumTable ends fits
  | identityInsert table on => exact steady_identityInsert ends fits on
  | insertRow table id name => exact steady_insertRow ends fits.1 fits.2 id
  | createTable name columns => exact steady_createTable ends fits.1 fits.2
  | addForeignKey k =>
      obtain ⟨table, column, target⟩ := fits
      exact steady_addForeignKey ends table column target
  | dropRecorded => exact steadyLines_dropLines ends
  | declareCommand => exact closed (by decide +kernel)
  | deleteAttribute name =>
      exact steadyLines_modifyLine ends ((oneRow_ofList (by decide)).append fits)
  | deleteRecords element =>
      exact steadyLines_modifyLine ends ((oneRow_ofList (by decide)).append fits)
  | insertAttribute itemType name value =>
      obtain ⟨owner, key, content⟩ := fits
      exact steady_insertAttribute ends owner key content
  | insertRecord r => exact steady_insertRecord ends fits

end Statement

end LearningStore.Script
